import InferenceGateway.Resilience.RateLimitBatches

/-!
# What a call changes

A reconcile replaces one member and leaves the others alone, a reserve that is not admitted
only trims, and an admission keeps the stored total within the budget as long as Lua adds
the costs exactly.
-/
namespace InferenceGateway.Resilience.RateLimit
open Library Redis WindowLog

/-- No reservation id is drawn twice. -/
def Fresh (past : List Event) (r : Request) : Prop :=
  ∀ id, r.drawn = some id → ∀ e ∈ past, e.1.drawn ≠ some id

instance (past : List Event) (r : Request) : Decidable (Fresh past r) :=
  inferInstanceAs (Decidable (∀ id ∈ r.drawn, ∀ e ∈ past, e.1.drawn ≠ some id))

/-- What a call does to the members that it finds. -/
structure Framed (apiKey : ApiKey) (key : SortedSet) (r : Request) : Prop where
  settled : ∀ id actual, r.call = .reconcile id actual →
    ∀ m ∈ (key.touch r.served).members, hasPrefix m id →
      (serve apiKey key r).1 = .settled ∧
      (∃ cost, memberCost m = some cost ∧ storedTotal (serve apiKey key r).2 =
        storedTotal (key.touch r.served) + (actual - cost)) ∧
      (otherMembers id (serve apiKey key r).2).Perm (otherMembers id (key.touch r.served))
  missing : ∀ id actual, r.call = .reconcile id actual →
    (∀ m ∈ (key.touch r.served).members, ¬ hasPrefix m id) →
      serve apiKey key r = (.missing, key.touch r.served)
  refused : ∀ id est, r.call = .reserve id est → (serve apiKey key r).1 ≠ .admitted →
    (serve apiKey key r).2.members = (key.touch r.served).members.filter
      fun m => r.clock - apiKey.windowSeconds < m.score
  admitted : (serve apiKey key r).1 = .admitted →
    Rounding.deficit (storedCosts (serve apiKey key r).2) + apiKey.tokenBudget < 2 ^ 53 →
      storedTotal (serve apiKey key r).2 ≤ apiKey.tokenBudget

/-- The key stores a log of reservations that have been drawn, and every cost is readable. -/
structure Tracked (past : List Event) (key : SortedSet) (log : Log) : Prop where
  represents : Represents key log
  drawn : ∀ id ∈ ids log, ∃ e ∈ past, e.1.drawn = some id
  readable : Readable key

variable {apiKey : ApiKey} {past : List Event} {key : SortedSet} {log live log' : Log}
  {r : Request} {reply : Reply} {id : ReservationId} {clock : Time}

theorem Moves.mem_ids (h : Moves apiKey live r reply log') :
    ∀ id ∈ ids log', id ∈ ids live ∨ r.drawn = some id := by
  intro id hid
  cases h with
  | grant hfits =>
    rw [ids_append] at hid
    obtain hold | hnew := List.mem_append.mp hid
    · exact .inl ((ids_trim_sublist _ _).subset hold)
    · obtain rfl := List.mem_singleton.mp hnew
      exact .inr rfl
  | refuse hreply => exact .inl ((ids_trim_sublist _ _).subset hid)
  | settle hmem => exact .inl (by rwa [ids_settle] at hid)
  | miss hmem => exact .inl hid

theorem Tracked.not_mem (h : Tracked past key log) (hfresh : Fresh past r) :
    ∀ id, r.drawn = some id → id ∉ ids log := fun id hid hmem =>
  have ⟨e, he, hdrawn⟩ := h.drawn id hmem
  hfresh id hid e he hdrawn

theorem Tracked.step (h : Tracked past key log) (hfresh : Fresh past r)
    (hsmall : r.call.tokens.natAbs < 10 ^ 14) :
    ∃ log', Tracked (past ++ [(r, (serve apiKey key r).1)]) (serve apiKey key r).2 log' := by
  obtain ⟨live, log', hlive, hmoves, hrep, -⟩ :=
    serve_moves apiKey h.represents (h.not_mem hfresh)
  refine ⟨log', hrep, fun id hid => ?_, h.readable.serve apiKey fun _ => hsmall⟩
  obtain hold | hnew := hmoves.mem_ids id hid
  · have hmem : id ∈ ids log := by
      obtain ⟨-, rfl⟩ | ⟨-, rfl⟩ := hlive
      · exact hold
      · exact absurd hold List.not_mem_nil
    obtain ⟨e, he, hdrawn⟩ := h.drawn id hmem
    exact ⟨e, List.mem_append_left _ he, hdrawn⟩
  · exact ⟨_, List.mem_append_right _ (List.mem_singleton_self _), hnew⟩

/-- Replacing the member of a reservation leaves the others as they are. -/
theorem otherMembers_replace {m : Member} (hpre : hasPrefix m id) (n : Int) :
    (otherMembers id ((key.zrem m.name).zadd clock (memberName id n))).Perm
      (otherMembers id key) := by
  have hnew : hasPrefix ⟨clock, memberName id n⟩ id = true := hasPrefix_memberName.mpr rfl
  refine ((SortedSet.zadd_members_perm _ _ _).filter _).trans (.of_eq ?_)
  rw [List.filter_cons_of_neg (by simp [hnew]), SortedSet.members_zrem, List.filter_filter,
    List.filter_filter]
  refine List.filter_congr fun m' _ => ?_
  -- A member of another reservation has neither the old name nor the new one.
  cases hpre' : hasPrefix m' id with
  | true => simp
  | false =>
    have hold : m'.name ≠ m.name := fun hname => by
      rw [hasPrefix, hname] at hpre'
      exact absurd (hpre.symm.trans hpre') (by decide)
    have hname : m'.name ≠ memberName id n := fun hname => by
      rw [hasPrefix, hname] at hpre'
      exact absurd (hnew.symm.trans hpre') (by decide)
    simp [hold, hname]

/-- Settling a charge moves the total by the difference to its earlier cost. -/
theorem sum_costs_settle {c : Charge ReservationId Time Int} (hnodup : (ids log).Nodup)
    (hc : c ∈ log) (stamp : Time) (cost : Int) :
    (costs (settle c.id stamp cost log)).sum = (costs log).sum + (cost - c.cost) := by
  have hmem := WindowLog.mem_ids.mpr ⟨c, hc, rfl⟩
  have hnew : (settle c.id stamp cost log).Perm _ := settle_perm hnodup hmem
  have hself : settle c.id c.stamp c.cost log = log := by
    refine (List.map_congr_left fun c' hc' => ?_).trans (List.map_id' _)
    split
    · exact (eq_of_id hnodup hc' hc ‹_›).symm
    · rfl
  have hold : (settle c.id c.stamp c.cost log).Perm _ := settle_perm hnodup hmem
  rw [hself] at hold
  rw [costs, costs, (hnew.map Charge.cost).sum_eq, (hold.map Charge.cost).sum_eq, List.map_cons,
    List.map_cons, List.sum_cons, List.sum_cons]
  dsimp only
  omega

/-- A reconcile that finds its reservation replaces the cost and nothing else. -/
theorem Represents.reconcile_settles {served : Time} (h : Represents (key.touch served) live)
    (hread : Readable (key.touch served)) {actual : Int} (hsmall : actual.natAbs < 10 ^ 14)
    {m : Member} (hm : m ∈ (key.touch served).members) (hpre : hasPrefix m id) :
    (reconcile key served clock id actual).1 = .settled ∧
    (∃ cost, memberCost m = some cost ∧ storedTotal (reconcile key served clock id actual).2 =
      storedTotal (key.touch served) + (actual - cost)) ∧
    (otherMembers id (reconcile key served clock id actual).2).Perm
      (otherMembers id (key.touch served)) := by
  obtain ⟨hnone, -⟩ | ⟨m', hm', hpre', heq⟩ := reconcile_cases key served clock id actual
  · exact absurd hpre (hnone m hm)
  · obtain ⟨c, hc, rfl⟩ := h.mem_iff.mp hm
    obtain ⟨c', hc', rfl⟩ := h.mem_iff.mp hm'
    obtain rfl := hasPrefix_memberName.mp hpre
    obtain rfl : c' = c := eq_of_id h.nodup hc' hc (hasPrefix_memberName.mp hpre')
    have hread' : Readable (((key.touch served).zrem (stored c').name).zadd clock
        (memberName c'.id actual)) := Readable.zadd hread.filter c'.id hsmall
    rw [heq]
    refine ⟨rfl, ⟨c'.cost, h.memberCost_stored hread hc, ?_⟩, otherMembers_replace hpre actual⟩
    rw [storedTotal, storedTotal, (h.storedCosts_perm hread).sum_eq,
      ((h.settle hc clock actual).storedCosts_perm hread').sum_eq]
    exact sum_costs_settle h.nodup hc clock actual

theorem Tracked.framed (h : Tracked past key log) (hfresh : Fresh past r)
    (hsmall : r.call.tokens.natAbs < 10 ^ 14) : Framed apiKey key r := by
  obtain ⟨live, log', hlive, hmoves, hrep, -⟩ :=
    serve_moves apiKey h.represents (h.not_mem hfresh)
  have hread : Readable (serve apiKey key r).2 := h.readable.serve apiKey fun _ => hsmall
  constructor
  · rintro id actual hcall m hm hpre
    obtain ⟨served, clock, call⟩ := r
    obtain rfl : call = .reconcile id actual := hcall
    obtain ⟨found, hfound, -⟩ := h.represents.touch served
    exact hfound.reconcile_settles (h.readable.touch served) hsmall hm hpre
  · rintro id actual hcall hnone
    obtain ⟨served, clock, call⟩ := r
    obtain rfl : call = .reconcile id actual := hcall
    obtain ⟨-, heq⟩ | ⟨m, hm, hpre, -⟩ := reconcile_cases key served clock id actual
    · exact heq
    · exact absurd hpre (hnone m hm)
  · rintro id est hcall hno
    obtain ⟨served, clock, call⟩ := r
    obtain rfl : call = .reserve id est := hcall
    obtain ⟨-, hkey⟩ | ⟨total, -, -, heq⟩ := reserve_cases apiKey key served clock id est
    · exact congrArg SortedSet.members hkey
    · exact absurd (congrArg Prod.fst heq) hno
  · intro hadmitted hroom
    rw [hadmitted] at hmoves
    rw [storedTotal, (hrep.storedCosts_perm hread).sum_eq]
    rw [Rounding.deficit_perm (hrep.storedCosts_perm hread)] at hroom
    cases hmoves with
    | @grant served clock id est hfits =>
      have hcosts : (costs (trim (clock - apiKey.windowSeconds) live ++ [⟨id, clock, est⟩])).Perm
          (est :: costs (trim (clock - apiKey.windowSeconds) live)) := by
        rw [costs, List.map_append]
        exact List.perm_append_singleton _ _
      rw [Rounding.deficit_perm hcosts] at hroom
      rw [hcosts.sum_eq, List.sum_cons]
      exact hfits hroom
    | refuse hno => exact absurd rfl hno

/-- For costs of at most fourteen digits and ids that are drawn once, at every moment of a
run there is at most one member for each id, and every call changes the set as `Framed`
says. -/
theorem stored_set_framed (apiKey : ApiKey) {requests : List Request}
    (hfresh : (limiter apiKey).Along (fun past _ r => Fresh past r) requests)
    (hsmall : ∀ r ∈ requests, r.call.tokens.natAbs < 10 ^ 14) :
    (∀ before, before <+: requests → ∀ id,
      (ownMembers id ((limiter apiKey).state before)).length ≤ 1) ∧
    (limiter apiKey).Along (fun _ key r => Framed apiKey key r) requests := by
  have hcond : (limiter apiKey).Along
      (fun past _ r => Fresh past r ∧ r.call.tokens.natAbs < 10 ^ 14) requests :=
    fun before r hr => ⟨hfresh before r hr,
      hsmall r (hr.subset (List.mem_append_right _ (List.mem_singleton_self _)))⟩
  have hnil : ∃ log, Tracked [] (limiter apiKey).initial log :=
    ⟨[], .empty, List.forall_mem_nil _, List.forall_mem_nil _⟩
  constructor
  · intro before hbefore id
    obtain ⟨log, h⟩ := (limiter apiKey).invariant_along
      (fun past key => ∃ log, Tracked past key log) hnil
      (fun past key r ⟨log, h⟩ ⟨hf, hs⟩ => h.step hf hs) (hcond.of_prefix _ hbefore)
    exact h.represents.ownMembers_le_one id
  · exact (limiter apiKey).along_of_invariant _ _ (fun past key => ∃ log, Tracked past key log)
      hnil (fun past key r ⟨log, h⟩ ⟨hf, hs⟩ => h.step hf hs)
      (fun past key r ⟨log, h⟩ ⟨hf, hs⟩ => h.framed hf hs) hcond

/-- A reservation that is reconciled twice, with the clock set back in between. -/
theorem stored_set_framed_twice : (limiter perMinute).Along
    (fun _ key r => Framed perMinute key r) [⟨0, 0, .reserve idA 10⟩, ⟨1, 1, .reserve idB 95⟩,
      ⟨2, 2, .reconcile idA 70⟩, ⟨3, -5, .reconcile idA (-20)⟩, ⟨4, 4, .reserve idC 90⟩] :=
  (stored_set_framed perMinute (by decide +kernel) (by decide)).2

/-- A reservation id for each number below `2 ^ 36`. -/
def numbered (n : Nat) : ReservationId where
  text := String.ofList (List.ofFn fun k : Fin 36 => if n.testBit k then '1' else '0')
  length_eq := by simp
  colon_not_mem := by
    simp only [String.toList_ofList, List.mem_ofFn, not_exists]
    intro k
    split <;> decide

theorem numbered_inj {m n : Nat} (hm : m < 2 ^ 36) (hn : n < 2 ^ 36)
    (h : numbered m = numbered n) : m = n := by
  have htext := String.ofList_injective (congrArg ReservationId.text h)
  refine Nat.eq_of_testBit_eq fun k => ?_
  by_cases hk : k < 36
  · have hbit : (if m.testBit k then '1' else '0') = if n.testBit k then '1' else '0' :=
      congrFun (List.ofFn_injective htext) ⟨k, hk⟩
    cases hmk : m.testBit k <;> cases hnk : n.testBit k <;> simp [hmk, hnk] at hbit ⊢
  · have hle : 2 ^ 36 ≤ 2 ^ k := Nat.pow_le_pow_right (by decide) (Nat.le_of_not_lt hk)
    rw [Nat.testBit_lt_two_pow (hm.trans_le hle), Nat.testBit_lt_two_pow (hn.trans_le hle)]

def charged : List ReservationId := (List.range 91).map numbered
def refunded : List ReservationId := (List.range' 91 91).map numbered

/-- 182 reservations, of which half are reconciled to almost `10 ^ 14` tokens and the other
half to as many below zero, and then a reserve of one token more than the budget. -/
def overdraft : List Request :=
  batches charged refunded (10 ^ 14 - 1) (1 - 10 ^ 14) ++ [⟨3, 3, .reserve (numbered 182) 101⟩]

theorem nodup_numbered : (charged ++ refunded ++ [numbered 182]).Nodup := by
  have hnumbers : charged ++ refunded ++ [numbered 182] = (List.range 183).map numbered := by
    rw [charged, refunded, ← List.map_append, ← List.map_singleton, ← List.map_append,
      List.range_eq_range', List.range'_append_1, ← List.range_eq_range', ← List.range_succ]
  rw [hnumbers]
  refine List.Nodup.map_on (fun m hm n hn => numbered_inj ?_ ?_) List.nodup_range
  · exact (List.mem_range.mp hm).trans (by decide)
  · exact (List.mem_range.mp hn).trans (by decide)

theorem along_fresh {requests : List Request} (h : (requests.filterMap Request.drawn).Nodup) :
    (limiter apiKey).Along (fun past _ r => Fresh past r) requests := by
  rintro before r ⟨after, rfl⟩ id hid e he hdrawn
  have hbefore : e.1 ∈ before := by
    rw [← (limiter apiKey).map_fst_history before]
    exact List.mem_map_of_mem he
  rw [List.filterMap_append, List.filterMap_append] at h
  have hdisjoint := (List.nodup_append.mp (List.nodup_append.mp h).1).2.2
  exact hdisjoint id (List.mem_filterMap.mpr ⟨e.1, hbefore, hdrawn⟩) id (by simp [hid]) rfl

/-- The budget is 100 tokens, and the last reserve brings the stored total to 101. Lua has
rounded the total of the first half down, and admits it. -/
theorem overdraft_admitted :
    (limiter perMinute).Along (fun past _ r => Fresh past r) overdraft ∧
    (∀ r ∈ overdraft, r.call.tokens.natAbs < 10 ^ 14) ∧
    ¬ (limiter perMinute).Along (fun _ key r => (serve perMinute key r).1 = .admitted →
      storedTotal (serve perMinute key r).2 ≤ perMinute.tokenBudget) overdraft := by
  have hnodup : (charged ++ refunded).Nodup := (List.nodup_append.mp nodup_numbered).1
  have hlive : (2 : Time) ≤ perMinute.windowSeconds := by decide +kernel
  have hsmall : (10 ^ 14 - 1 : Int).natAbs < 10 ^ 14 := by decide
  have hsmall' : (1 - 10 ^ 14 : Int).natAbs < 10 ^ 14 := by decide
  refine ⟨along_fresh ?_, ?_, fun h => ?_⟩
  · rw [overdraft, List.filterMap_append, drawn_batches]
    exact nodup_numbered
  · refine List.forall_mem_append.mpr ⟨tokens_batches hsmall hsmall', ?_⟩
    exact List.forall_mem_singleton.mpr (by decide)
  · have hlast := h _ _ List.prefix_rfl
    have hholding : Holding perMinute _ _ := holding_batches hnodup hlive hsmall hsmall'
    have hcosts : storedCosts ((limiter perMinute).state (batches charged refunded _ _)) = _ :=
      storedCosts_batches hnodup hlive hsmall hsmall'
    generalize (limiter perMinute).state
      (batches charged refunded (10 ^ 14 - 1) (1 - 10 ^ 14)) = key at hlast hholding hcosts
    rw [charged, refunded, List.length_map, List.length_map, List.length_range,
      List.length_range'] at hcosts
    have hnew : numbered 182 ∉ ids (batched charged refunded (10 ^ 14 - 1) (1 - 10 ^ 14)) := by
      rw [ids_batched]
      exact fun hmem => (List.nodup_append.mp nodup_numbered).2.2 _ hmem _
        (List.mem_singleton_self _) rfl
    have hlive' : (3 : Time) ≤ perMinute.windowSeconds := by decide +kernel
    have hrecent : ∀ c ∈ batched charged refunded (10 ^ 14 - 1) (1 - 10 ^ 14),
        3 - (perMinute.windowSeconds : Time) < c.stamp := by
      refine List.forall_mem_append.mpr ⟨?_, ?_⟩
      · have hone : 3 - (perMinute.windowSeconds : Time) < 1 := by decide +kernel
        exact List.forall_mem_map.mpr fun _ _ => hone
      · have htwo : 3 - (perMinute.windowSeconds : Time) < 2 := by decide +kernel
        exact List.forall_mem_map.mpr fun _ _ => htwo
    have hadmitted : (serve perMinute key ⟨3, 3, .reserve (numbered 182) 101⟩).1 = .admitted := by
      rw [hholding.admits_iff hlive' hrecent, hcosts]
      decide +kernel
    obtain ⟨hrep, hread, -⟩ := hholding.reserve hnew hlive' hrecent (by decide) hadmitted
    have htotal := hlast hadmitted
    have hbefore := (hholding.represents.storedCosts_perm hholding.readable).sum_eq
    rw [storedTotal, (hrep.storedCosts_perm hread).sum_eq, costs, List.map_append,
      List.sum_append, ← costs, ← hbefore, hcosts] at htotal
    exact absurd htotal (by decide +kernel)

end InferenceGateway.Resilience.RateLimit
