import InferenceGateway.Library.WindowLog
import InferenceGateway.Resilience.RateLimit

/-!
# The limiter as a log of charges

The stored texts represent a log with one charge per reservation. Every script is shown
to act on that log: a reserve trims it and may add a charge, a reconcile settles one
charge. `Moves` is this abstract limiter; `serve_moves` says that the scripts refine it.
-/
namespace InferenceGateway.Resilience.RateLimit
open Library Redis WindowLog

abbrev Log := List (Charge ReservationId Time Int)

/-- The member that holds a charge. -/
def stored (c : Charge ReservationId Time Int) : Member := ⟨c.stamp, memberName c.id c.cost⟩

theorem toList_memberName (id : ReservationId) (n : Int) :
    (memberName id n).toList =
      id.text.toList ++ ':' :: (LuaNumber.concat (LuaNumber.ofInt n)).toList := by
  simp [memberName]

theorem memberCost_memberName (score : Time) (id : ReservationId) (n : Int) :
    memberCost ⟨score, memberName id n⟩ = if n.natAbs < 10 ^ 14 then some n else none := by
  rw [memberCost, toList_memberName, LuaNumber.matchSuffix_concat id.colon_not_mem]

/-- Ids have one length, so the prefix test of the script is a test for the id. -/
theorem hasPrefix_memberName {score : Time} {id id' : ReservationId} {n : Int} :
    hasPrefix ⟨score, memberName id n⟩ id' = true ↔ id = id' := by
  have hlen : id'.text.length = id.text.toList.length := by
    rw [String.length_toList, id.length_eq, id'.length_eq]
  rw [hasPrefix, decide_eq_true_iff, toList_memberName, hlen, List.take_left, String.toList_inj]
  exact ⟨fun h => by cases id; cases id'; simp_all, fun h => h ▸ rfl⟩

theorem id_eq_of_memberName_eq {id id' : ReservationId} {n n' : Int}
    (h : memberName id n = memberName id' n') : id = id' := by
  have hpre : hasPrefix ⟨0, memberName id' n'⟩ id' ↔ id' = id' := hasPrefix_memberName
  rw [← h] at hpre
  exact hasPrefix_memberName.mp (hpre.mpr rfl)

/-- The key holds exactly the charges of the log. -/
structure Represents (key : SortedSet) (log : Log) : Prop where
  members : key.members.Perm (log.map stored)
  nodup : (ids log).Nodup

namespace Represents

variable {key : SortedSet} {log : Log}

theorem empty : Represents .empty [] := ⟨.refl _, List.nodup_nil⟩

theorem mem_iff (h : Represents key log) {m : Member} :
    m ∈ key.members ↔ ∃ c ∈ log, stored c = m := by
  rw [h.members.mem_iff, List.mem_map]

/-- What a script finds: the log, unless the key has expired. -/
theorem touch (h : Represents key log) (served : Time) :
    ∃ live, Represents (key.touch served) live ∧
      ((¬ key.Expired served ∧ live = log) ∨ (key.Expired served ∧ live = [])) := by
  by_cases hexp : key.Expired served
  · rw [SortedSet.touch_of_expired key hexp]
    exact ⟨[], empty, .inr ⟨hexp, rfl⟩⟩
  · rw [SortedSet.touch_of_not_expired key hexp]
    exact ⟨log, h, .inl ⟨hexp, rfl⟩⟩

theorem trim (h : Represents key log) (cutoff : Time) :
    Represents (key.zremrangebyscore cutoff) (trim cutoff log) where
  members := by
    rw [SortedSet.members_zremrangebyscore, WindowLog.trim]
    refine (h.members.filter _).trans (.of_eq ?_)
    rw [List.filter_map]
    rfl
  nodup := h.nodup.sublist (ids_trim_sublist cutoff log)

theorem add (h : Represents key log) {id : ReservationId} (hfresh : id ∉ ids log)
    (stamp : Time) (cost : Int) :
    Represents (key.zadd stamp (memberName id cost)) (log ++ [⟨id, stamp, cost⟩]) where
  members := by
    refine (key.zadd_members_perm _ _).trans ?_
    have hall : key.members.filter (fun m => m.name ≠ memberName id cost) = key.members := by
      refine List.filter_eq_self.mpr fun m hm => ?_
      obtain ⟨c, hc, rfl⟩ := h.mem_iff.mp hm
      simp only [ne_eq, decide_not, Bool.not_eq_true', decide_eq_false_iff_not]
      exact fun hname => hfresh (mem_ids.mpr ⟨c, hc, id_eq_of_memberName_eq hname⟩)
    rw [hall, List.map_append]
    exact (h.members.cons _).trans (List.perm_append_singleton _ _).symm
  nodup := by
    rw [ids_append]
    refine h.nodup.append (List.nodup_singleton _) (List.disjoint_singleton.mpr hfresh)

/-- Replacing the member of an id settles its charge. -/
theorem settle (h : Represents key log) {c : Charge ReservationId Time Int} (hc : c ∈ log)
    (stamp : Time) (cost : Int) :
    Represents ((key.zrem (stored c).name).zadd stamp (memberName c.id cost))
      (settle c.id stamp cost log) where
  members := by
    refine (SortedSet.zadd_members_perm _ _ _).trans ?_
    refine .trans ?_ ((settle_perm h.nodup (mem_ids.mpr ⟨c, hc, rfl⟩)).map stored).symm
    rw [List.map_cons, SortedSet.members_zrem]
    refine .cons _ ?_
    rw [List.filter_filter]
    refine (h.members.filter _).trans (.of_eq ?_)
    rw [List.filter_map]
    refine congrArg _ (List.filter_congr fun c' hc' => ?_)
    -- Names differ exactly when ids do: each id has one charge.
    by_cases hid : c'.id = c.id
    · obtain rfl := eq_of_id h.nodup hc' hc hid
      simp
    · have hne : ∀ n, (stored c').name ≠ memberName c.id n := fun n hname =>
        hid (id_eq_of_memberName_eq hname)
      have hne' : (stored c').name ≠ (stored c).name := hne _
      simp [hid, hne, hne']
  nodup := by rw [ids_settle]; exact h.nodup

end Represents

/-! ## The summing loop -/

theorem sumCosts_eq_some {ms : List Member} {t total : Int} (h : sumCosts t ms = some total) :
    ∃ xs, ms.map memberCost = xs.map some ∧ total = binary64.sumFrom t xs := by
  induction ms generalizing t with
  | nil => exact ⟨[], rfl, (Option.some.inj h).symm⟩
  | cons m ms ih =>
    rw [sumCosts] at h
    cases hm : memberCost m with
    | none => simp [hm] at h
    | some cost =>
      simp only [hm] at h
      obtain ⟨xs, hxs, htotal⟩ := ih h
      exact ⟨cost :: xs, by simp [hm, hxs], htotal⟩

/-- When the loop succeeds it has added the costs of the log, in some order. -/
theorem Represents.sumCosts {key : SortedSet} {log : Log} (h : Represents key log) {total : Int}
    (hsum : sumCosts 0 key.members = some total) :
    ∃ xs : List Int, xs.Perm (costs log) ∧ total = binary64.sum xs := by
  obtain ⟨xs, hxs, htotal⟩ := sumCosts_eq_some hsum
  refine ⟨xs, ?_, htotal⟩
  have hperm := h.members.map memberCost
  rw [hxs, List.map_map] at hperm
  have hcosts : log.map (memberCost ∘ stored) = (costs log).map some := by
    rw [costs, List.map_map]
    refine List.map_congr_left fun c hc => ?_
    have hmem : (memberCost ∘ stored) c ∈ xs.map some :=
      hperm.mem_iff.mpr (List.mem_map_of_mem hc)
    rw [Function.comp_apply, stored, memberCost_memberName] at hmem ⊢
    split at hmem <;> simp_all
  rw [hcosts] at hperm
  exact (List.map_perm_map_iff (Option.some_injective _)).mp hperm

/-- The budget test, in exact arithmetic. Rounding can only matter when the negative
costs in the window reach the exact range of binary64. -/
theorem Represents.within_budget {key : SortedSet} {log : Log} (h : Represents key log)
    {total est budget : Int} (hsum : RateLimit.sumCosts 0 key.members = some total)
    (htest : ¬ LuaNumber.ofInt budget < LuaNumber.ofInt (total + LuaNumber.ofInt est))
    (hbudget : 0 ≤ budget) (hroom : Rounding.deficit (est :: costs log) + budget < 2 ^ 53) :
    est + (costs log).sum ≤ budget := by
  obtain ⟨xs, hperm, rfl⟩ := h.sumCosts hsum
  have hsnoc : binary64.sum (xs ++ [est]) =
      LuaNumber.ofInt (binary64.sum xs + LuaNumber.ofInt est) := by
    simp [Rounding.sum, Rounding.sumFrom, LuaNumber.ofInt]
  have hperm' : (xs ++ [est]).Perm (est :: costs log) :=
    (List.perm_append_singleton _ _).trans (hperm.cons _)
  have hnonneg := Rounding.deficit_nonneg (est :: costs log)
  have hexact : LuaNumber.ofInt budget = budget :=
    binary64.exact budget (by rw [abs_of_nonneg hbudget]; exact (by omega : budget ≤ 2 ^ 53))
  rw [hexact, ← hsnoc, not_lt, binary64.sum_le_iff _ hbudget, hperm'.sum_eq] at htest
  · simpa using htest
  · rw [Rounding.deficit_perm hperm']
    exact hroom

/-! ## The abstract limiter -/

/-- The admission test, as far as the script decides it exactly. -/
def Fits (budget est : Int) (window : List Int) : Prop :=
  Rounding.deficit (est :: window) + budget < 2 ^ 53 → est + window.sum ≤ budget

/-- What a request does to the log it finds, and what it answers. -/
inductive Moves (apiKey : ApiKey) : Log → Request → Reply → Log → Prop
  | grant {live : Log} {served clock : Time} {id : ReservationId} {est : Int}
      (hfits : Fits apiKey.tokenBudget est (costs (trim (clock - apiKey.windowSeconds) live))) :
      Moves apiKey live ⟨served, clock, .reserve id est⟩ .admitted
        (trim (clock - apiKey.windowSeconds) live ++ [⟨id, clock, est⟩])
  | refuse {live : Log} {served clock : Time} {id : ReservationId} {est : Int} {reply : Reply}
      (hreply : reply ≠ .admitted) :
      Moves apiKey live ⟨served, clock, .reserve id est⟩ reply
        (trim (clock - apiKey.windowSeconds) live)
  | settle {live : Log} {served clock : Time} {id : ReservationId} {actual : Int}
      (hid : id ∈ ids live) :
      Moves apiKey live ⟨served, clock, .reconcile id actual⟩ .settled
        (WindowLog.settle id clock actual live)
  | miss {live : Log} {served clock : Time} {id : ReservationId} {actual : Int}
      (hid : id ∉ ids live) :
      Moves apiKey live ⟨served, clock, .reconcile id actual⟩ .missing live

theorem Moves.fits {apiKey : ApiKey} {live log' : Log} {r : Request} {id : ReservationId}
    {est : Int} (h : Moves apiKey live r .admitted log') (hcall : r.call = .reserve id est) :
    Fits apiKey.tokenBudget est (costs (trim (r.clock - apiKey.windowSeconds) live)) := by
  cases h with
  | grant hfits =>
    obtain ⟨rfl, rfl⟩ := Call.reserve.inj hcall
    exact hfits
  | refuse hno => exact absurd rfl hno

/-- Only an admission sets a deadline; every other call leaves it or drops it. -/
def DeadlineMoves (apiKey : ApiKey) (key : SortedSet) (served : Time) (reply : Reply)
    (key' : SortedSet) : Prop :=
  if reply = .admitted then key'.deadline = some (served + apiKey.windowSeconds)
  else ∀ d, key'.deadline = some d → key.deadline = some d

theorem deadline_touch {key : SortedSet} {served d : Time}
    (h : (key.touch served).deadline = some d) : key.deadline = some d := by
  by_cases hexp : key.Expired served
  · rw [SortedSet.touch_of_expired key hexp] at h
    exact absurd h (by simp [SortedSet.empty])
  · rwa [SortedSet.touch_of_not_expired key hexp] at h

theorem deadline_trim {apiKey : ApiKey} {key : SortedSet} {served clock d : Time}
    (h : (trimmed apiKey key served clock).deadline = some d) : key.deadline = some d :=
  deadline_touch (SortedSet.deadline_keep_eq h).2

section Serve
variable (apiKey : ApiKey) {key : SortedSet} {log : Log} {served : Time} (clock : Time)
  {id : ReservationId}

theorem reserve_moves {live : Log} (h : Represents (key.touch served) live)
    (hfresh : id ∉ ids live) (est : Int) :
    ∃ log', Moves apiKey live ⟨served, clock, .reserve id est⟩
        (reserve apiKey key served clock id est).1 log' ∧
      Represents (reserve apiKey key served clock id est).2 log' ∧
      DeadlineMoves apiKey key served (reserve apiKey key served clock id est).1
        (reserve apiKey key served clock id est).2 := by
  have htrim : Represents (trimmed apiKey key served clock)
      (trim (clock - apiKey.windowSeconds) live) := h.trim _
  obtain ⟨hno, hkey⟩ | ⟨total, hsum, htest, heq⟩ := reserve_cases apiKey key served clock id est
  · refine ⟨_, .refuse hno, ?_, ?_⟩
    · rw [hkey]
      exact htrim
    · rw [DeadlineMoves, if_neg hno, hkey]
      exact fun d => deadline_trim
  · have hfits : Fits apiKey.tokenBudget est
        (costs (trim (clock - apiKey.windowSeconds) live)) := fun hroom =>
      htrim.within_budget hsum htest (by have := apiKey.tokenBudget_pos; omega) hroom
    have hid : id ∉ ids (trim (clock - apiKey.windowSeconds) live) := fun hmem =>
      hfresh ((ids_trim_sublist _ _).subset hmem)
    have hadd := htrim.add hid clock est
    have hne : ((trimmed apiKey key served clock).zadd clock (memberName id est)).members ≠ [] :=
      fun hnil => by simpa [hnil] using hadd.members
    rw [heq]
    refine ⟨_, .grant hfits, ⟨?_, hadd.nodup⟩, ?_⟩
    · rw [SortedSet.members_expire _ apiKey.windowSeconds_pos]
      exact hadd.members
    · rw [DeadlineMoves, if_pos rfl, SortedSet.deadline_expire _ apiKey.windowSeconds_pos hne]

theorem reconcile_moves {live : Log} (h : Represents (key.touch served) live)
    (id : ReservationId) (actual : Int) :
    ∃ log', Moves apiKey live ⟨served, clock, .reconcile id actual⟩
        (reconcile key served clock id actual).1 log' ∧
      Represents (reconcile key served clock id actual).2 log' ∧
      DeadlineMoves apiKey key served (reconcile key served clock id actual).1
        (reconcile key served clock id actual).2 := by
  obtain ⟨hnone, heq⟩ | ⟨m, hm, hpre, heq⟩ := reconcile_cases key served clock id actual
  · rw [heq]
    refine ⟨live, .miss fun hmem => ?_, h, by simpa [DeadlineMoves] using fun d => deadline_touch⟩
    obtain ⟨c, hc, rfl⟩ := mem_ids.mp hmem
    exact hnone _ (h.mem_iff.mpr ⟨c, hc, rfl⟩) (hasPrefix_memberName.mpr rfl)
  · obtain ⟨c, hc, rfl⟩ := h.mem_iff.mp hm
    obtain rfl := hasPrefix_memberName.mp hpre
    rw [heq]
    refine ⟨_, .settle (mem_ids.mpr ⟨c, hc, rfl⟩), h.settle hc clock actual, ?_⟩
    simp only [DeadlineMoves, reduceCtorEq, if_false, SortedSet.deadline_zadd]
    exact fun d hd => deadline_touch (SortedSet.deadline_keep_eq hd).2

/-- The scripts refine the abstract limiter: on a key that represents a log, a request
whose id is new makes one of its moves on the part of the log that has not expired. -/
theorem serve_moves (h : Represents key log) {r : Request}
    (hfresh : ∀ id, r.drawn = some id → id ∉ ids log) :
    ∃ live log', ((¬ key.Expired r.served ∧ live = log) ∨ (key.Expired r.served ∧ live = [])) ∧
      Moves apiKey live r (serve apiKey key r).1 log' ∧
      Represents (serve apiKey key r).2 log' ∧
      DeadlineMoves apiKey key r.served (serve apiKey key r).1 (serve apiKey key r).2 := by
  obtain ⟨served, clock, call⟩ := r
  obtain ⟨live, hlive, hfound⟩ := h.touch served
  have hsub : ids live ⊆ ids log := by
    obtain ⟨-, rfl⟩ | ⟨-, rfl⟩ := hfound
    · exact fun _ h => h
    · exact List.nil_subset _
  cases call with
  | reserve id est =>
    obtain ⟨log', hmoves⟩ := reserve_moves apiKey clock hlive
      (fun hmem => hfresh id rfl (hsub hmem)) est
    exact ⟨live, log', hfound, hmoves⟩
  | reconcile id actual =>
    obtain ⟨log', hmoves⟩ := reconcile_moves apiKey clock hlive id actual
    exact ⟨live, log', hfound, hmoves⟩

end Serve

end InferenceGateway.Resilience.RateLimit
