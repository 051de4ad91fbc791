import InferenceGateway.Resilience.RateLimitLog

/-!
# Reconciling a reservation

A reconcile can only correct an entry that is still stored. Nothing keeps the entry of a
slow request: another reserve may trim it and the whole key may expire, and then the
actual cost is not recorded at all. These are the only two ways to lose it.
-/
namespace InferenceGateway.Resilience.RateLimit
open Library Redis

/-- The key stores an entry of the reservation. -/
def Holds (id : ReservationId) (key : SortedSet) : Prop :=
  ∃ m ∈ key.members, hasPrefix m id

/-- The entry of the reservation is lost: the key has expired, or it is a reserve whose
window the entry has left. -/
def Loses (apiKey : ApiKey) (id : ReservationId) (key : SortedSet) (r : Request) : Prop :=
  key.Expired r.served ∨ ((∃ id' est, r.call = .reserve id' est) ∧
    ∀ m ∈ key.members, hasPrefix m id → m.score ≤ r.clock - apiKey.windowSeconds)

/-- The key stores an entry of the reservation with this stamp, which a reserve will read
as this cost. -/
def Recorded (id : ReservationId) (cost : Int) (stamp : Time) (key : SortedSet) : Prop :=
  ∃ m ∈ key.members, hasPrefix m id ∧ m.score = stamp ∧ memberCost m = some cost

instance (id : ReservationId) (cost : Int) (stamp : Time) (key : SortedSet) :
    Decidable (Recorded id cost stamp key) :=
  inferInstanceAs (Decidable (∃ m ∈ key.members, _))

variable {apiKey : ApiKey} {key : SortedSet} {served clock : Time} {id id' : ReservationId}

theorem eq_of_hasPrefix {m : Member} (h : hasPrefix m id) (h' : hasPrefix m id') : id = id' := by
  rw [hasPrefix, decide_eq_true_iff] at h h'
  rw [id.length_eq] at h
  rw [id'.length_eq, h, String.toList_inj] at h'
  exact ReservationId.ext h'

/-! ## Every member is a reservation -/

def Named (key : SortedSet) : Prop := ∀ m ∈ key.members, ∃ id n, m.name = memberName id n

theorem Named.touch (h : Named key) (served : Time) : Named (key.touch served) :=
  key.touch_intro (List.forall_mem_nil _) h served

theorem Named.zadd (h : Named key) (score : Time) (id : ReservationId) (n : Int) :
    Named (key.zadd score (memberName id n)) := by
  intro m hm
  obtain rfl | hold := List.mem_cons.mp ((key.zadd_members_perm _ _).mem_iff.mp hm)
  · exact ⟨id, n, rfl⟩
  · exact h m (List.mem_filter.mp hold).1

theorem Named.serve (h : Named key) (apiKey : ApiKey) (r : Request) :
    Named (serve apiKey key r).2 := by
  obtain ⟨served, clock, call⟩ := r
  cases call with
  | reserve id est =>
    have htrim : Named (trimmed apiKey key served clock) := fun m hm =>
      h.touch served m (List.mem_filter.mp hm).1
    change Named (reserve apiKey key served clock id est).2
    obtain ⟨-, hkey⟩ | ⟨total, -, -, heq⟩ := reserve_cases apiKey key served clock id est
    · rw [hkey]
      exact htrim
    · rw [heq]
      intro m hm
      rw [SortedSet.members_expire _ apiKey.windowSeconds_pos] at hm
      exact htrim.zadd clock id est m hm
  | reconcile id actual =>
    change Named (reconcile key served clock id actual).2
    obtain ⟨-, heq⟩ | ⟨m, -, -, heq⟩ := reconcile_cases key served clock id actual
    · rw [heq]
      exact h.touch served
    · rw [heq]
      refine Named.zadd (fun m' hm' => ?_) clock id actual
      exact h.touch served m' (List.mem_filter.mp hm').1

theorem limiter_named (apiKey : ApiKey) (requests : List Request) :
    Named ((limiter apiKey).state requests) :=
  (limiter apiKey).invariant (fun _ key => Named key) (by simp [Named, limiter, SortedSet.empty])
    (fun _ _ r h => h.serve apiKey r) requests

/-! ## Keeping and losing an entry -/

theorem holds_touch : Holds id (key.touch served) ↔ ¬ key.Expired served ∧ Holds id key := by
  by_cases hexp : key.Expired served
  · rw [SortedSet.touch_of_expired key hexp]
    simp [Holds, SortedSet.empty, hexp]
  · rw [SortedSet.touch_of_not_expired key hexp]
    simp [hexp]

/-- Adding a member of another reservation does not touch this one. -/
theorem holds_zadd_of_ne (hne : id' ≠ id) (score : Time) (n : Int) :
    Holds id (key.zadd score (memberName id' n)) ↔ Holds id key := by
  have hnew : ∀ score, ¬ hasPrefix ⟨score, memberName id' n⟩ id := fun _ h =>
    hne (hasPrefix_memberName.mp h)
  constructor
  · rintro ⟨m, hm, hpre⟩
    obtain rfl | hold := List.mem_cons.mp ((key.zadd_members_perm _ _).mem_iff.mp hm)
    · exact absurd hpre (hnew _)
    · exact ⟨m, (List.mem_filter.mp hold).1, hpre⟩
  · rintro ⟨m, hm, hpre⟩
    refine ⟨m, (key.zadd_members_perm _ _).mem_iff.mpr (List.mem_cons_of_mem _ ?_), hpre⟩
    refine List.mem_filter.mpr ⟨hm, decide_eq_true fun hname => hnew m.score ?_⟩
    rwa [← hname]

theorem holds_zadd_self (score : Time) (n : Int) : Holds id (key.zadd score (memberName id n)) :=
  ⟨⟨score, memberName id n⟩, (key.zadd_members_perm _ _).mem_iff.mpr List.mem_cons_self,
    hasPrefix_memberName.mpr rfl⟩

theorem holds_trimmed : Holds id (trimmed apiKey key served clock) ↔
    Holds id key ∧ ¬ (key.Expired served ∨
      ∀ m ∈ key.members, hasPrefix m id → m.score ≤ clock - apiKey.windowSeconds) := by
  by_cases hexp : key.Expired served
  · have hempty : trimmed apiKey key served clock = .empty := by
      rw [trimmed, SortedSet.touch_of_expired key hexp]
      rfl
    simp [hempty, Holds, SortedSet.empty, hexp]
  · rw [trimmed, SortedSet.touch_of_not_expired key hexp]
    simp only [hexp, false_or, not_forall, not_le, exists_prop]
    constructor
    · rintro ⟨m, hm, hpre⟩
      obtain ⟨hmem, hin⟩ := List.mem_filter.mp hm
      exact ⟨⟨m, hmem, hpre⟩, m, hmem, hpre, of_decide_eq_true hin⟩
    · rintro ⟨-, m, hmem, hpre, hin⟩
      exact ⟨m, List.mem_filter.mpr ⟨hmem, decide_eq_true hin⟩, hpre⟩

/-- A call that draws another id keeps the entry unless it loses it. -/
theorem holds_serve {r : Request} (hfresh : r.drawn ≠ some id) :
    Holds id (serve apiKey key r).2 ↔ Holds id key ∧ ¬ Loses apiKey id key r := by
  obtain ⟨served, clock, call⟩ := r
  cases call with
  | reserve id' est =>
    have hne : id' ≠ id := fun h => hfresh (congrArg some h)
    have hloses : Loses apiKey id key ⟨served, clock, .reserve id' est⟩ ↔ (key.Expired served ∨
        ∀ m ∈ key.members, hasPrefix m id → m.score ≤ clock - apiKey.windowSeconds) := by
      simp [Loses]
    rw [hloses, ← holds_trimmed]
    change Holds id (reserve apiKey key served clock id' est).2 ↔ _
    obtain ⟨-, hkey⟩ | ⟨total, -, -, heq⟩ := reserve_cases apiKey key served clock id' est
    · rw [hkey]
    · rw [heq, Holds, SortedSet.members_expire _ apiKey.windowSeconds_pos]
      exact holds_zadd_of_ne hne clock est
  | reconcile id' actual =>
    have hloses : Loses apiKey id key ⟨served, clock, .reconcile id' actual⟩ ↔
        key.Expired served := by
      simp [Loses]
    rw [hloses, and_comm, ← holds_touch]
    change Holds id (reconcile key served clock id' actual).2 ↔ _
    obtain ⟨-, heq⟩ | ⟨m, hm, hpre, heq⟩ := reconcile_cases key served clock id' actual
    · rw [heq]
    · rw [heq]
      by_cases hid : id' = id
      · subst hid
        exact iff_of_true (holds_zadd_self _ _) ⟨m, hm, hpre⟩
      · rw [holds_zadd_of_ne hid]
        constructor
        · rintro ⟨m', hm', hpre'⟩
          exact ⟨m', (List.mem_filter.mp hm').1, hpre'⟩
        · rintro ⟨m', hm', hpre'⟩
          refine ⟨m', List.mem_filter.mpr ⟨hm', decide_eq_true fun hname => hid ?_⟩, hpre'⟩
          refine eq_of_hasPrefix hpre (m := m) ?_
          rw [hasPrefix, ← hname]
          exact hpre'

/-- A member that has just been written is read back exactly if its cost is short. -/
theorem recorded_zadd_iff (h : Named key) (n : Int) :
    Recorded id n clock (key.zadd clock (memberName id n)) ↔ n.natAbs < 10 ^ 14 := by
  constructor
  · rintro ⟨m, hm, -, -, hcost⟩
    obtain ⟨id', n', hname⟩ := h.zadd clock id n m hm
    obtain ⟨score, name⟩ := m
    obtain rfl : name = memberName id' n' := hname
    rw [memberCost_memberName] at hcost
    split at hcost
    · rwa [← Option.some.inj hcost]
    · exact absurd hcost (by simp)
  · intro hsmall
    refine ⟨⟨clock, memberName id n⟩, ?_, hasPrefix_memberName.mpr rfl, rfl, ?_⟩
    · exact (SortedSet.zadd_members_perm _ _ _).mem_iff.mpr List.mem_cons_self
    · rw [memberCost_memberName, if_pos hsmall]

/-- After a reconcile, an entry with its cost and stamp is stored exactly when an entry is
stored at all and the cost is one that the scripts write out in digits. -/
theorem recorded_reconcile (h : Named key) (apiKey : ApiKey) (actual : Int) :
    Recorded id actual clock (serve apiKey key ⟨served, clock, .reconcile id actual⟩).2 ↔
      Holds id (serve apiKey key ⟨served, clock, .reconcile id actual⟩).2 ∧
        actual.natAbs < 10 ^ 14 := by
  change Recorded id actual clock (reconcile key served clock id actual).2 ↔
    Holds id (reconcile key served clock id actual).2 ∧ _
  obtain ⟨hnone, heq⟩ | ⟨m, -, -, heq⟩ := reconcile_cases key served clock id actual
  · rw [heq]
    refine iff_of_false ?_ ?_
    · rintro ⟨m, hm, hpre, -⟩
      exact hnone m hm hpre
    · rintro ⟨⟨m, hm, hpre⟩, -⟩
      exact hnone m hm hpre
  · rw [heq, recorded_zadd_iff fun m' hm' => h.touch served m' (List.mem_filter.mp hm').1]
    exact (and_iff_right (holds_zadd_self clock actual)).symm

theorem holds_of_admitted {est : Int}
    (h : (serve apiKey key ⟨served, clock, .reserve id est⟩).1 = .admitted) :
    Holds id (serve apiKey key ⟨served, clock, .reserve id est⟩).2 := by
  change (reserve apiKey key served clock id est).1 = .admitted at h
  change Holds id (reserve apiKey key served clock id est).2
  obtain ⟨hno, -⟩ | ⟨total, -, -, heq⟩ := reserve_cases apiKey key served clock id est
  · exact absurd h hno
  · rw [heq, Holds, SortedSet.members_expire _ apiKey.windowSeconds_pos]
    exact holds_zadd_self clock est

/-- In a run that admits a reservation and reconciles it later, the actual cost is
recorded exactly when no call in between, nor the reconcile itself, comes after the key's
deadline, no reserve in between trims the entry, and the cost has at most 14 digits. -/
theorem reconcile_records_iff (apiKey : ApiKey) (before between : List Request)
    (served₀ clock₀ served clock : Time) (id : ReservationId) (est actual : Int)
    (hadmitted : (serve apiKey ((limiter apiKey).state before)
      ⟨served₀, clock₀, .reserve id est⟩).1 = .admitted)
    (hfresh : ∀ r ∈ between, r.drawn ≠ some id) :
    let start := before ++ [⟨served₀, clock₀, .reserve id est⟩]
    let later := between ++ [⟨served, clock, .reconcile id actual⟩]
    Recorded id actual clock ((limiter apiKey).state (start ++ later)) ↔
      (∀ mid r, mid ++ [r] <+: later →
        ¬ Loses apiKey id ((limiter apiKey).state (start ++ mid)) r) ∧
      actual.natAbs < 10 ^ 14 := by
  intro start later
  have hstart : Holds id ((limiter apiKey).state start) := by
    rw [Service.state_concat]
    exact holds_of_admitted hadmitted
  have hlater : ∀ r ∈ later, r.drawn ≠ some id := fun r hr => by
    obtain hmid | hlast := List.mem_append.mp hr
    · exact hfresh r hmid
    · obtain rfl := List.mem_singleton.mp hlast
      simp [Request.drawn]
  have hsurvives := (limiter apiKey).survives_iff (Holds id) (Loses apiKey id)
    start later fun key r hr => holds_serve (hlater r hr)
  have hrecorded : Recorded id actual clock ((limiter apiKey).state (start ++ later)) ↔
      Holds id ((limiter apiKey).state (start ++ later)) ∧ actual.natAbs < 10 ^ 14 := by
    rw [← List.append_assoc, Service.state_concat]
    exact recorded_reconcile (limiter_named apiKey _) apiKey actual
  rw [hrecorded, hsurvives, and_iff_right hstart]

/-- A reconcile 40 seconds after its reserve, with another reserve in between. -/
theorem reconcile_records_prompt :
    Recorded idA 70 40 ((limiter perMinute).state ([⟨0, 0, .reserve idA 10⟩] ++
      [⟨20, 20, .reserve idB 10⟩, ⟨40, 40, .reconcile idA 70⟩])) ↔
    (∀ mid r, mid ++ [r] <+: [⟨20, 20, .reserve idB 10⟩, ⟨40, 40, .reconcile idA 70⟩] →
      ¬ Loses perMinute idA ((limiter perMinute).state ([⟨0, 0, .reserve idA 10⟩] ++ mid)) r) ∧
    (70 : Int).natAbs < 10 ^ 14 :=
  reconcile_records_iff perMinute [] [⟨20, 20, .reserve idB 10⟩] 0 0 40 40 idA 10 70
    (by decide +kernel) (by decide)

/-- The request of `idA` takes 70 seconds of a 60 second window. The reserve of `idB` at 61
trims its entry, and the reconcile finds nothing to correct. -/
theorem slow_request_not_recorded :
    (serve perMinute ((limiter perMinute).state []) ⟨0, 0, .reserve idA 10⟩).1 = .admitted ∧
    ¬ Recorded idA 10 70 ((limiter perMinute).state ([⟨0, 0, .reserve idA 10⟩] ++
      [⟨61, 61, .reserve idB 10⟩, ⟨70, 70, .reconcile idA 10⟩])) := by
  decide +kernel

end InferenceGateway.Resilience.RateLimit
