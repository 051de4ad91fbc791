import InferenceGateway.Resilience.RateLimitTotals

/-!
# Batches of reservations

Reservations of no tokens that are reconciled in two batches, long before the window ends.
The members of the first batch come before those of the second, so the order in which a
reserve adds the costs is known.
-/
namespace InferenceGateway.Resilience.RateLimit
open Library Redis WindowLog

variable {apiKey : ApiKey} {key : SortedSet} {log : Log} {id : ReservationId} {clock : Time}

/-- The key stores the log, every cost is readable, and it lasts for a window. -/
structure Holding (apiKey : ApiKey) (key : SortedSet) (log : Log) : Prop where
  represents : Represents key log
  readable : Readable key
  lasts : ∀ d, key.deadline = some d → d = apiKey.windowSeconds

theorem Holding.not_expired (h : Holding apiKey key log) {served : Time}
    (hle : served ≤ apiKey.windowSeconds) : ¬ key.Expired served := by
  rintro ⟨d, hd, hlt⟩
  rw [h.lasts d hd] at hlt
  exact absurd hlt (not_lt.mpr hle)

section Reserve
variable {served : Time} {est : Int}

/-- Nothing has left the window. -/
theorem Holding.trimmed_eq (h : Holding apiKey key log) (hlive : served ≤ apiKey.windowSeconds)
    (hrecent : ∀ c ∈ log, clock - apiKey.windowSeconds < c.stamp) :
    (trimmed apiKey key served clock).members = key.members := by
  rw [trimmed, key.touch_of_not_expired (h.not_expired hlive)]
  refine List.filter_eq_self.mpr fun m hm => decide_eq_true ?_
  obtain ⟨c, hc, rfl⟩ := h.represents.mem_iff.mp hm
  exact hrecent c hc

theorem Holding.admits_iff (h : Holding apiKey key log) (hlive : served ≤ apiKey.windowSeconds)
    (hrecent : ∀ c ∈ log, clock - apiKey.windowSeconds < c.stamp) :
    (serve apiKey key ⟨served, clock, .reserve id est⟩).1 = .admitted ↔
      LuaNumber.ofInt (binary64.sum (storedCosts key) + LuaNumber.ofInt est) ≤
        LuaNumber.ofInt apiKey.tokenBudget := by
  have hread : Readable (trimmed apiKey key served clock) := (h.readable.touch served).filter
  have hcosts : storedCosts (trimmed apiKey key served clock) = storedCosts key := by
    rw [storedCosts, h.trimmed_eq hlive hrecent, storedCosts]
  rw [← hcosts]
  exact reserve_admits_iff hread est

/-- An admitted reserve adds its charge and makes the key last from now on. -/
theorem Holding.reserve (h : Holding apiKey key log) (hnew : id ∉ ids log)
    (hlive : served ≤ apiKey.windowSeconds)
    (hrecent : ∀ c ∈ log, clock - apiKey.windowSeconds < c.stamp) (hsmall : est.natAbs < 10 ^ 14)
    (hadmitted : (serve apiKey key ⟨served, clock, .reserve id est⟩).1 = .admitted) :
    Represents (serve apiKey key ⟨served, clock, .reserve id est⟩).2 (log ++ [⟨id, clock, est⟩]) ∧
    Readable (serve apiKey key ⟨served, clock, .reserve id est⟩).2 ∧
    (serve apiKey key ⟨served, clock, .reserve id est⟩).2.deadline =
      some (served + apiKey.windowSeconds) := by
  obtain ⟨live, log', hfound, hmoves, hrep, hdead⟩ := serve_moves apiKey h.represents
    (r := ⟨served, clock, .reserve id est⟩) fun id' hid' => (Option.some.inj hid') ▸ hnew
  obtain ⟨-, rfl⟩ | ⟨hexp, -⟩ := hfound
  · rw [DeadlineMoves, if_pos hadmitted] at hdead
    rw [hadmitted] at hmoves
    cases hmoves with
    | grant hfits =>
      have htrim : trim (clock - (apiKey.windowSeconds : Time)) live = live :=
        List.filter_eq_self.mpr fun c hc => decide_eq_true (hrecent c hc)
      rw [htrim] at hrep
      exact ⟨hrep, h.readable.serve apiKey fun _ => hsmall, hdead⟩
    | refuse hno => exact absurd rfl hno
  · exact absurd hexp (h.not_expired hlive)

end Reserve

theorem sum_of_zeros {xs : List Int} (h : ∀ x ∈ xs, x = 0) : binary64.sum xs = 0 := by
  rw [List.eq_replicate_of_mem h]
  induction xs.length with
  | zero => rfl
  | succ n ih => exact ih

/-- A reserve of no tokens is admitted to a log without costs. -/
theorem Holding.reserve_nothing (h : Holding apiKey key log) (hnew : id ∉ ids log)
    (hfree : ∀ c ∈ log, c.stamp = 0 ∧ c.cost = 0) :
    Holding apiKey (serve apiKey key ⟨0, 0, .reserve id 0⟩).2 (log ++ [⟨id, 0, 0⟩]) := by
  have hwindow : (0 : Time) < apiKey.windowSeconds := by exact_mod_cast apiKey.windowSeconds_pos
  have hrecent : ∀ c ∈ log, 0 - (apiKey.windowSeconds : Time) < c.stamp := fun c hc => by
    rw [(hfree c hc).1, zero_sub]
    exact neg_lt_zero.mpr hwindow
  have hadmitted : (serve apiKey key ⟨0, 0, .reserve id 0⟩).1 = .admitted := by
    rw [h.admits_iff hwindow.le hrecent, sum_of_zeros fun x hx => ?_]
    · have hbudget := apiKey.tokenBudget_pos
      have hle := apiKey.tokenBudget_le
      rw [LuaNumber.ofInt_of_small (n := apiKey.tokenBudget) (by omega)]
      exact hbudget.le
    · have hperm := h.represents.storedCosts_perm h.readable
      obtain ⟨c, hc, rfl⟩ := List.mem_map.mp (hperm.mem_iff.mp hx)
      exact (hfree c hc).2
  obtain ⟨hrep, hread, hdeadline⟩ := h.reserve hnew hwindow.le hrecent (by decide) hadmitted
  refine ⟨hrep, hread, fun d hd => ?_⟩
  rw [hdeadline, zero_add] at hd
  exact (Option.some.inj hd).symm

/-- A reconcile of a stored reservation settles its charge. -/
theorem Holding.reconcile (h : Holding apiKey key log) (hid : id ∈ ids log)
    {served : Time} (hlive : served ≤ apiKey.windowSeconds) {cost : Int}
    (hsmall : cost.natAbs < 10 ^ 14) :
    Holding apiKey (serve apiKey key ⟨served, served, .reconcile id cost⟩).2
      (settle id served cost log) := by
  obtain ⟨live, log', hfound, hmoves, hrep, hdead⟩ := serve_moves apiKey h.represents
    (r := ⟨served, served, .reconcile id cost⟩) nofun
  obtain ⟨-, rfl⟩ | ⟨hexp, -⟩ := hfound
  · have hreply : (serve apiKey key ⟨served, served, .reconcile id cost⟩).1 ≠ .admitted := by
      intro hadmitted
      rw [hadmitted] at hmoves
      exact nomatch hmoves
    rw [DeadlineMoves, if_neg hreply] at hdead
    refine ⟨?_, h.readable.serve apiKey fun _ => hsmall, fun d hd => h.lasts d (hdead d hd)⟩
    generalize (serve apiKey key ⟨served, served, .reconcile id cost⟩).1 = reply at hmoves
    cases hmoves with
    | settle hmem => exact hrep
    | miss hmem => exact absurd hid hmem
  · exact absurd hexp (h.not_expired hlive)

/-- Reservations of no tokens are all admitted. -/
theorem holding_reserved (apiKey : ApiKey) {reserved : List ReservationId}
    (hnodup : reserved.Nodup) :
    Holding apiKey ((limiter apiKey).state (reserved.map fun id => ⟨0, 0, .reserve id 0⟩))
      (reserved.map fun id => ⟨id, 0, 0⟩) := by
  induction reserved using List.reverseRecOn with
  | nil => exact ⟨.empty, List.forall_mem_nil _, nofun⟩
  | append_singleton reserved id ih =>
    obtain ⟨hbefore, -, hdisjoint⟩ := List.nodup_append.mp hnodup
    rw [List.map_append, List.map_append, List.map_singleton, List.map_singleton,
      Service.state_concat]
    refine (ih hbefore).reserve_nothing (fun hmem => ?_) fun c hc => ?_
    · obtain ⟨c, hc, hid⟩ := WindowLog.mem_ids.mp hmem
      obtain ⟨id', hid', rfl⟩ := List.mem_map.mp hc
      exact hdisjoint id' hid' id (List.mem_singleton_self _) hid
    · obtain ⟨id', -, rfl⟩ := List.mem_map.mp hc
      exact ⟨rfl, rfl⟩

/-- A batch of reconciles to one cost settles all their charges. -/
theorem holding_reconciled {requests : List Request} {reserved : List ReservationId}
    (h : Holding apiKey ((limiter apiKey).state requests) log) (hsub : reserved ⊆ ids log)
    {served : Time} (hlive : served ≤ apiKey.windowSeconds) {cost : Int}
    (hsmall : cost.natAbs < 10 ^ 14) :
    Holding apiKey ((limiter apiKey).state
        (requests ++ reserved.map fun id => ⟨served, served, .reconcile id cost⟩))
      (log.map fun c => if c.id ∈ reserved then ⟨c.id, served, cost⟩ else c) := by
  induction reserved using List.reverseRecOn with
  | nil => simpa using h
  | append_singleton reserved id ih =>
    obtain ⟨hbefore, hid⟩ := List.append_subset.mp hsub
    have hids : id ∈
        ids (log.map fun c => if c.id ∈ reserved then ⟨c.id, served, cost⟩ else c) := by
      obtain ⟨c, hc, hcid⟩ := WindowLog.mem_ids.mp (hid (List.mem_singleton_self id))
      refine WindowLog.mem_ids.mpr ⟨_, List.mem_map_of_mem hc, ?_⟩
      split <;> exact hcid
    have hnext := (ih hbefore).reconcile hids hlive hsmall
    rw [List.map_append, List.map_singleton, ← List.append_assoc, Service.state_concat]
    refine Eq.mp (congrArg (Holding apiKey _) ?_) hnext
    rw [settle, List.map_map]
    refine List.map_congr_left fun c _ => ?_
    have hsame : (if c.id ∈ reserved then ⟨c.id, served, cost⟩ else c :
        Charge ReservationId Time Int).id = c.id := by split <;> rfl
    rw [Function.comp_apply, hsame]
    by_cases hlast : c.id = id
    · rw [if_pos hlast, if_pos (List.mem_append_right _ (List.mem_singleton.mpr hlast)), hlast]
    · by_cases hmem : c.id ∈ reserved <;> simp [hlast, hmem]

/-- Reservations of which some are reconciled to one cost and then the others to another. -/
def batches (first second : List ReservationId) (a b : Int) : List Request :=
  (first ++ second).map (fun id => ⟨0, 0, .reserve id 0⟩) ++
  first.map (fun id => ⟨1, 1, .reconcile id a⟩) ++ second.map fun id => ⟨2, 2, .reconcile id b⟩

/-- The charges that are left, in the order of their stamps. -/
def batched (first second : List ReservationId) (a b : Int) : Log :=
  first.map (fun id => ⟨id, 1, a⟩) ++ second.map fun id => ⟨id, 2, b⟩

section Batches
variable {first second : List ReservationId} {a b : Int}

theorem drawn_batches : (batches first second a b).filterMap Request.drawn = first ++ second := by
  simp [batches, List.filterMap_append, List.filterMap_map, Function.comp_def, Request.drawn]

theorem ids_batched : ids (batched first second a b) = first ++ second := by
  rw [ids, batched, List.map_append, List.map_map, List.map_map]
  exact congrArg₂ _ (List.map_id' _) (List.map_id' _)

theorem tokens_batches (ha : a.natAbs < 10 ^ 14) (hb : b.natAbs < 10 ^ 14) :
    ∀ r ∈ batches first second a b, r.call.tokens.natAbs < 10 ^ 14 := by
  have hzero : (0 : Int).natAbs < 10 ^ 14 := by decide
  refine List.forall_mem_append.mpr ⟨List.forall_mem_append.mpr ⟨?_, ?_⟩, ?_⟩
  · exact List.forall_mem_map.mpr fun _ _ => hzero
  · exact List.forall_mem_map.mpr fun _ _ => ha
  · exact List.forall_mem_map.mpr fun _ _ => hb

theorem holding_batches (hnodup : (first ++ second).Nodup)
    (hlive : (2 : Time) ≤ apiKey.windowSeconds) (ha : a.natAbs < 10 ^ 14)
    (hb : b.natAbs < 10 ^ 14) :
    Holding apiKey ((limiter apiKey).state (batches first second a b))
      (batched first second a b) := by
  have hdisjoint : ∀ id ∈ second, id ∉ first := fun id hid hid' =>
    (List.nodup_append.mp hnodup).2.2 id hid' id hid rfl
  have hids : ∀ log : Log, log.map Charge.id = first ++ second →
      first ⊆ ids log ∧ second ⊆ ids log := fun log hlog => by
    rw [ids, hlog]
    exact ⟨List.subset_append_left _ _, List.subset_append_right _ _⟩
  have hreserved := holding_reserved apiKey hnodup
  have hfirst := holding_reconciled hreserved (hids _ ?_).1
    (le_trans (by decide +kernel : (1 : Time) ≤ 2) hlive) ha
  · have hsecond := holding_reconciled hfirst (hids _ ?_).2 hlive hb
    · refine Eq.mp (congrArg (Holding apiKey _) ?_) hsecond
      rw [List.map_map, List.map_map, batched, List.map_append]
      refine congrArg₂ _ ?_ ?_
      · refine List.map_congr_left fun id hid => ?_
        have hother : id ∉ second := fun hid' => hdisjoint id hid' hid
        simp [hid, hother]
      · refine List.map_congr_left fun id hid => ?_
        simp [hid, hdisjoint id hid]
    · rw [List.map_map, List.map_map]
      refine (List.map_congr_left fun id _ => ?_).trans (List.map_id' _)
      simp only [Function.comp_apply]
      split <;> rfl
  · rw [List.map_map]
    exact List.map_id' _

theorem storedCosts_batches (hnodup : (first ++ second).Nodup)
    (hlive : (2 : Time) ≤ apiKey.windowSeconds) (ha : a.natAbs < 10 ^ 14)
    (hb : b.natAbs < 10 ^ 14) :
    storedCosts ((limiter apiKey).state (batches first second a b)) =
      List.replicate first.length a ++ List.replicate second.length b := by
  have h := holding_batches hnodup hlive ha hb
  have hcost : ∀ c ∈ batched first second a b, c.cost = if c.stamp = 1 then a else b := by
    intro c hc
    obtain hc | hc := List.mem_append.mp hc <;> obtain ⟨id, -, rfl⟩ := List.mem_map.mp hc
    · exact (if_pos rfl).symm
    · exact (if_neg (by decide +kernel : (2 : Time) ≠ 1)).symm
  have hstamps : (batched first second a b).map Charge.stamp =
      List.replicate first.length 1 ++ List.replicate second.length 2 := by
    rw [batched, List.map_append, List.map_map, List.map_map]
    exact congrArg₂ _ List.map_const' List.map_const'
  have hordered := limiter_ordered apiKey (batches first second a b)
  generalize (limiter apiKey).state (batches first second a b) = key at h hordered ⊢
  have hscores : key.members.map Member.score =
      List.replicate first.length 1 ++ List.replicate second.length 2 := by
    refine List.Perm.eq_of_pairwise' (r := (· ≤ ·)) (List.pairwise_map.mpr hordered) ?_ ?_
    · refine List.pairwise_append.mpr ⟨List.pairwise_replicate.mpr (.inr le_rfl),
        List.pairwise_replicate.mpr (.inr le_rfl), fun s hs t ht => ?_⟩
      rw [List.eq_of_mem_replicate hs, List.eq_of_mem_replicate ht]
      decide +kernel
    · rw [← hstamps]
      refine (h.represents.members.map _).trans (.of_eq ?_)
      rw [List.map_map]
      rfl
  have hread : storedCosts key =
      (key.members.map Member.score).map fun s => if s = 1 then a else b := by
    rw [storedCosts, List.map_map]
    refine List.map_congr_left fun m hm => ?_
    obtain ⟨c, hc, rfl⟩ := h.represents.mem_iff.mp hm
    rw [h.represents.memberCost_stored h.readable hc, Option.getD_some, hcost c hc]
    rfl
  rw [hread, hscores, List.map_append, List.map_replicate, List.map_replicate, if_pos rfl,
    if_neg (by decide +kernel : (2 : Time) ≠ 1)]

end Batches

end InferenceGateway.Resilience.RateLimit
