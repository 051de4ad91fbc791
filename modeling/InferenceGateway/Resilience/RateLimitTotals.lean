import InferenceGateway.Resilience.RateLimitCosts

/-!
# The stored total

The costs that the members hold, in the order of their scores. A reserve that can read them
all adds them in binary64 in this order.
-/
namespace InferenceGateway.Resilience.RateLimit
open Library Redis WindowLog

/-- The costs of the members, in the order in which a script reads them. -/
def storedCosts (key : SortedSet) : List Int := key.members.map fun m => (memberCost m).getD 0

def storedTotal (key : SortedSet) : Int := (storedCosts key).sum

variable {apiKey : ApiKey} {key : SortedSet} {log : Log} {id : ReservationId} {clock : Time}

/-! ## The members of a log -/

theorem Represents.cost_small (h : Represents key log) (hread : Readable key)
    {c : Charge ReservationId Time Int} (hc : c ∈ log) : c.cost.natAbs < 10 ^ 14 := by
  obtain ⟨cost, hcost⟩ := hread (stored c) (h.mem_iff.mpr ⟨c, hc, rfl⟩)
  rw [stored, memberCost_memberName] at hcost
  by_contra hlarge
  rw [if_neg hlarge] at hcost
  exact absurd hcost (by simp)

/-- A member is read as the cost of its charge. -/
theorem Represents.memberCost_stored (h : Represents key log) (hread : Readable key)
    {c : Charge ReservationId Time Int} (hc : c ∈ log) : memberCost (stored c) = some c.cost := by
  rw [stored, memberCost_memberName, if_pos (h.cost_small hread hc)]

theorem Represents.storedCosts_perm (h : Represents key log) (hread : Readable key) :
    (storedCosts key).Perm (costs log) := by
  refine (h.members.map _).trans (.of_eq ?_)
  rw [List.map_map, costs]
  refine List.map_congr_left fun c hc => ?_
  rw [Function.comp_apply, h.memberCost_stored hread hc, Option.getD_some]

theorem Represents.ownMembers_le_one (h : Represents key log) (id : ReservationId) :
    (ownMembers id key).length ≤ 1 := by
  have hperm : (ownMembers id key).Perm ((log.filter fun c => c.id = id).map stored) := by
    refine (h.members.filter _).trans (.of_eq ?_)
    rw [List.filter_map]
    refine congrArg _ (List.filter_congr fun c _ => ?_)
    rw [Function.comp_apply, stored, Bool.eq_iff_iff, hasPrefix_memberName, decide_eq_true_iff]
  rw [hperm.length_eq, List.length_map, ← List.length_map Charge.id]
  have hnodup : ((log.filter fun c => c.id = id).map Charge.id).Nodup :=
    h.nodup.sublist (List.filter_sublist.map _)
  have hall : ∀ id' ∈ (log.filter fun c => c.id = id).map Charge.id, id' = id := fun id' hid' => by
    obtain ⟨c, hc, rfl⟩ := List.mem_map.mp hid'
    exact of_decide_eq_true (List.mem_filter.mp hc).2
  rw [List.eq_replicate_of_mem hall, List.nodup_replicate] at hnodup
  exact hnodup

/-! ## Adding the costs -/

theorem ordered_serve (h : key.Ordered) (apiKey : ApiKey) (r : Request) :
    (serve apiKey key r).2.Ordered := by
  obtain ⟨served, clock, call⟩ := r
  cases call with
  | reserve id est =>
    have htrim : (trimmed apiKey key served clock).Ordered := (h.touch served).filter
    change (reserve apiKey key served clock id est).2.Ordered
    obtain ⟨-, hkey⟩ | ⟨total, -, -, heq⟩ := reserve_cases apiKey key served clock id est
    · rw [hkey]
      exact htrim
    · rw [heq, SortedSet.Ordered, SortedSet.members_expire _ apiKey.windowSeconds_pos]
      exact htrim.zadd clock (memberName id est)
  | reconcile id actual =>
    change (reconcile key served clock id actual).2.Ordered
    obtain ⟨-, heq⟩ | ⟨m, -, -, heq⟩ := reconcile_cases key served clock id actual
    · rw [heq]
      exact h.touch served
    · rw [heq]
      exact SortedSet.Ordered.zadd (h.touch served).filter clock _

theorem limiter_ordered (apiKey : ApiKey) (requests : List Request) :
    ((limiter apiKey).state requests).Ordered :=
  (limiter apiKey).invariant (fun _ key => key.Ordered) List.Pairwise.nil
    (fun _ _ r h => ordered_serve h apiKey r) requests

/-- With readable costs the script adds them all, one after another, in binary64. -/
theorem sumCosts_readable (h : Readable key) :
    sumCosts 0 key.members = some (binary64.sum (storedCosts key)) := by
  have hfrom : ∀ (ms : List Member) (t : Int), (∀ m ∈ ms, ∃ cost, memberCost m = some cost) →
      sumCosts t ms = some (binary64.sumFrom t (ms.map fun m => (memberCost m).getD 0)) := by
    intro ms
    induction ms with
    | nil => exact fun _ _ => rfl
    | cons m ms ih =>
      intro t hms
      rw [List.forall_mem_cons] at hms
      obtain ⟨⟨cost, hcost⟩, hms⟩ := hms
      rw [sumCosts, hcost]
      refine (ih _ hms).trans ?_
      rw [List.map_cons, hcost]
      rfl
  exact hfrom key.members 0 h

theorem reserve_admits_iff {served : Time} (h : Readable (trimmed apiKey key served clock))
    (est : Int) : (reserve apiKey key served clock id est).1 = .admitted ↔
      LuaNumber.ofInt (binary64.sum (storedCosts (trimmed apiKey key served clock)) +
        LuaNumber.ofInt est) ≤ LuaNumber.ofInt apiKey.tokenBudget := by
  have hsum := sumCosts_readable h
  unfold trimmed at hsum ⊢
  simp only [reserve, reserveScript, hsum, ← not_lt]
  split_ifs with htest <;> simp [htest]

end InferenceGateway.Resilience.RateLimit
