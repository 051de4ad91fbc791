import InferenceGateway.Resilience.RateLimitAbandon
import InferenceGateway.Resilience.RateLimitSkew

/-!
# Costs that are read back

A cost is written by Lua's number format and read by a pattern of digits. The two agree up
to fourteen digits. A longer cost is stored as a text that no reserve can read, and every
reserve that finds it in its window fails.
-/
namespace InferenceGateway.Resilience.RateLimit
open Library Redis

/-- A reserve can read the cost of every member. -/
def Readable (key : SortedSet) : Prop := ∀ m ∈ key.members, ∃ cost, memberCost m = some cost

/-- The call passes the test of its script and writes a member. -/
def Stores (apiKey : ApiKey) (key : SortedSet) (r : Request) : Prop :=
  match r.call with
  | .reserve _ est =>
    ∃ total, sumCosts 0 (trimmed apiKey key r.served r.clock).members = some total ∧
      ¬ LuaNumber.ofInt apiKey.tokenBudget < LuaNumber.ofInt (total + LuaNumber.ofInt est)
  | .reconcile id _ => Holds id (key.touch r.served)

/-- What the call writes is read back as the same cost, and the call can read the costs it
finds. -/
def ReadsBack (apiKey : ApiKey) (key : SortedSet) (r : Request) : Prop :=
  ((serve apiKey key r).1 = .admitted ∨ (serve apiKey key r).1 = .settled →
    Recorded r.about r.call.tokens r.clock (serve apiKey key r).2) ∧
  (serve apiKey key r).1 ≠ .raised

instance (apiKey : ApiKey) (key : SortedSet) (r : Request) :
    Decidable (ReadsBack apiKey key r) := inferInstanceAs (Decidable (_ ∧ _))

variable {apiKey : ApiKey} {key : SortedSet} {served clock stamp : Time} {id : ReservationId}

theorem sumCosts_eq_none_iff {ms : List Member} {t : Int} :
    sumCosts t ms = none ↔ ∃ m ∈ ms, memberCost m = none := by
  induction ms generalizing t with
  | nil => simp [sumCosts]
  | cons m ms ih =>
    rw [List.exists_mem_cons_iff, sumCosts]
    cases hm : memberCost m with
    | none => simp
    | some cost => simp [ih]

/-- A reserve fails exactly when there is a member in its window that it cannot read. -/
theorem reserve_raised_iff (est : Int) : (reserve apiKey key served clock id est).1 = .raised ↔
    ¬ Readable (trimmed apiKey key served clock) := by
  have hread : ¬ Readable (trimmed apiKey key served clock) ↔
      sumCosts 0 (trimmed apiKey key served clock).members = none := by
    rw [sumCosts_eq_none_iff]
    simp [Readable, Option.eq_none_iff_forall_ne_some]
  rw [hread]
  simp only [reserve, reserveScript, trimmed]
  cases sumCosts 0 ((key.touch served).zremrangebyscore
      (clock - apiKey.windowSeconds)).members with
  | none => simp
  | some total =>
    dsimp only
    split_ifs <;> simp

/-- The test of the script decides what the call answers. -/
theorem stores_iff_reply {r : Request} : Stores apiKey key r ↔
    (serve apiKey key r).1 = .admitted ∨ (serve apiKey key r).1 = .settled := by
  obtain ⟨served, clock, call⟩ := r
  cases call with
  | reserve id est =>
    change (∃ total, _ ∧ _) ↔ (reserve apiKey key served clock id est).1 = .admitted ∨
      (reserve apiKey key served clock id est).1 = .settled
    simp only [reserve, reserveScript, trimmed]
    cases sumCosts 0 ((key.touch served).zremrangebyscore
        (clock - apiKey.windowSeconds)).members with
    | none => simp
    | some total =>
      dsimp only
      split_ifs with htest
      · simp [htest]
      · exact iff_of_true ⟨total, rfl, htest⟩ (.inl rfl)
  | reconcile id actual =>
    change Holds id (key.touch served) ↔ (reconcile key served clock id actual).1 = .admitted ∨
      (reconcile key served clock id actual).1 = .settled
    obtain ⟨hnone, heq⟩ | ⟨m, hm, hpre, heq⟩ := reconcile_cases key served clock id actual
    · rw [heq]
      simpa [Holds] using hnone
    · rw [heq]
      exact iff_of_true ⟨m, hm, hpre⟩ (.inr rfl)

/-! ## One call -/

theorem named_touch_filter (h : Named key) {p : Member → Bool} {deadline : Option Time} :
    Named (.keep ((key.touch served).members.filter p) deadline) := fun m hm =>
  h.touch served m (List.mem_filter.mp hm).1

/-- What a call writes is read back exactly if its cost is short. -/
theorem recorded_serve_iff (h : Named key) {r : Request} (hstores : Stores apiKey key r) :
    Recorded r.about r.call.tokens r.clock (serve apiKey key r).2 ↔
      r.call.tokens.natAbs < 10 ^ 14 := by
  have hreply := stores_iff_reply.mp hstores
  obtain ⟨served, clock, call⟩ := r
  cases call with
  | reserve id est =>
    change Recorded id est clock (reserve apiKey key served clock id est).2 ↔ _
    change (reserve apiKey key served clock id est).1 = .admitted ∨
      (reserve apiKey key served clock id est).1 = .settled at hreply
    obtain ⟨hno, hkey⟩ | ⟨total, -, -, heq⟩ := reserve_cases apiKey key served clock id est
    · have hsettled := hreply.resolve_left hno
      revert hsettled
      simp only [reserve]
      split <;> simp
    · rw [heq, Recorded, SortedSet.members_expire _ apiKey.windowSeconds_pos]
      exact recorded_zadd_iff (named_touch_filter h) est
  | reconcile id actual =>
    change Recorded id actual clock (reconcile key served clock id actual).2 ↔ _
    obtain ⟨hnone, -⟩ | ⟨m, -, -, heq⟩ := reconcile_cases key served clock id actual
    · obtain ⟨m, hm, hpre⟩ := hstores
      exact absurd hpre (hnone m hm)
    · rw [heq]
      exact recorded_zadd_iff (named_touch_filter h) actual

theorem Readable.touch (h : Readable key) (served : Time) : Readable (key.touch served) :=
  key.touch_intro (List.forall_mem_nil _) h served

theorem Readable.filter (h : Readable key) {p : Member → Bool} {deadline : Option Time} :
    Readable (.keep (key.members.filter p) deadline) := fun m hm => h m (List.mem_filter.mp hm).1

theorem Readable.zadd (h : Readable key) (id : ReservationId) {n : Int}
    (hsmall : n.natAbs < 10 ^ 14) : Readable (key.zadd stamp (memberName id n)) := by
  intro m hm
  obtain rfl | hold := List.mem_cons.mp ((key.zadd_members_perm _ _).mem_iff.mp hm)
  · exact ⟨n, by rw [memberCost_memberName, if_pos hsmall]⟩
  · exact h m (List.mem_filter.mp hold).1

/-- A call that writes no long cost leaves every member readable. -/
theorem Readable.serve (h : Readable key) (apiKey : ApiKey) {r : Request}
    (hsmall : Stores apiKey key r → r.call.tokens.natAbs < 10 ^ 14) :
    Readable (serve apiKey key r).2 := by
  rw [stores_iff_reply] at hsmall
  obtain ⟨served, clock, call⟩ := r
  cases call with
  | reserve id est =>
    have htrim : Readable (trimmed apiKey key served clock) := (h.touch served).filter
    change Readable (reserve apiKey key served clock id est).2
    change (reserve apiKey key served clock id est).1 = .admitted ∨ _ → _ at hsmall
    obtain ⟨-, hkey⟩ | ⟨total, -, -, heq⟩ := reserve_cases apiKey key served clock id est
    · rw [hkey]
      exact htrim
    · rw [heq, Readable, SortedSet.members_expire _ apiKey.windowSeconds_pos]
      exact htrim.zadd id (hsmall (.inl (by rw [heq])))
  | reconcile id actual =>
    change Readable (reconcile key served clock id actual).2
    change _ ∨ (reconcile key served clock id actual).1 = .settled → _ at hsmall
    obtain ⟨-, heq⟩ | ⟨m, -, -, heq⟩ := reconcile_cases key served clock id actual
    · rw [heq]
      exact h.touch served
    · rw [heq]
      exact Readable.zadd (h.touch served).filter id (hsmall (.inr (by rw [heq])))

theorem Readable.not_raised (h : Readable key) (apiKey : ApiKey) (r : Request) :
    (RateLimit.serve apiKey key r).1 ≠ .raised := by
  obtain ⟨served, clock, call⟩ := r
  cases call with
  | reserve id est =>
    change (reserve apiKey key served clock id est).1 ≠ .raised
    rw [ne_eq, reserve_raised_iff, not_not]
    exact (h.touch served).filter
  | reconcile id actual =>
    change (reconcile key served clock id actual).1 ≠ .raised
    obtain ⟨-, heq⟩ | ⟨m, -, -, heq⟩ := reconcile_cases key served clock id actual <;> simp [heq]

/-! ## Every run -/

/-- Every cost of a run is read back as it was written, and no reserve fails, exactly if all
costs that are written have at most fourteen digits. -/
theorem costs_read_back_iff (apiKey : ApiKey) (requests : List Request) :
    (limiter apiKey).Along (fun _ key r => ReadsBack apiKey key r) requests ↔
      (limiter apiKey).Along (fun _ key r =>
        Stores apiKey key r → r.call.tokens.natAbs < 10 ^ 14) requests := by
  constructor
  · intro h before r hr hstores
    obtain ⟨hrecorded, -⟩ := h before r hr
    exact (recorded_serve_iff (limiter_named apiKey before) hstores).mp
      (hrecorded (stores_iff_reply.mp hstores))
  · refine (limiter apiKey).along_of_invariant _ _ (fun _ key => Named key ∧ Readable key) ?_ ?_ ?_
    · exact ⟨List.forall_mem_nil _, List.forall_mem_nil _⟩
    · rintro past key r ⟨hnamed, hreadable⟩ hsmall
      exact ⟨hnamed.serve apiKey r, hreadable.serve apiKey hsmall⟩
    · rintro past key r ⟨hnamed, hreadable⟩ hsmall
      refine ⟨fun hreply => ?_, hreadable.not_raised apiKey r⟩
      have hstores := stores_iff_reply.mpr hreply
      exact (recorded_serve_iff hnamed hstores).mpr (hsmall hstores)

/-- The backend reports `10 ^ 14` tokens, which are stored as `1e+14`: the next reserve
fails. -/
theorem long_cost_poisons :
    (serve perMinute ((limiter perMinute).state [⟨0, 0, .reserve idA 10⟩,
      ⟨1, 1, .reconcile idA (10 ^ 14)⟩]) ⟨2, 2, .reserve idB 10⟩).1 = .raised ∧
    ¬ (limiter perMinute).Along (fun _ key r => ReadsBack perMinute key r)
      [⟨0, 0, .reserve idA 10⟩, ⟨1, 1, .reconcile idA (10 ^ 14)⟩, ⟨2, 2, .reserve idB 10⟩] := by
  decide +kernel

end InferenceGateway.Resilience.RateLimit
