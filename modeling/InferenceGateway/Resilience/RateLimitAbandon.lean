import InferenceGateway.Resilience.RateLimitReconcile

/-!
# An abandoned reservation

A reservation that is never reconciled stays in the window at its estimate. If the other entries
count the same with it and without it, the total of the key is what it would be without the
reservation only once the entry is gone: dropped with the key, trimmed, or out of the window.
-/
namespace InferenceGateway.Resilience.RateLimit
open Library Redis

/-- The tokens that a reserve at this moment finds in the window. A member that no script
can read adds nothing. -/
def tokenTotal (apiKey : ApiKey) (key : SortedSet) (served clock : Time) : Int :=
  ((trimmed apiKey key served clock).members.map fun m => (memberCost m).getD 0).sum

/-- The reservation that a call is about. -/
def Request.about (r : Request) : ReservationId :=
  match r.call with
  | .reserve id _ => id
  | .reconcile id _ => id

/-- The members of a reservation. -/
def ownMembers (id : ReservationId) (key : SortedSet) : List Member :=
  key.members.filter fun m => hasPrefix m id

variable {apiKey : ApiKey} {key : SortedSet} {id id' : ReservationId} {served clock : Time}

theorem holds_iff_ownMembers : Holds id key ↔ ownMembers id key ≠ [] := by
  simp [Holds, ownMembers, List.filter_eq_nil_iff]

/-! ## Calls about other reservations -/

theorem ownMembers_zadd (hne : id' ≠ id) (score : Time) (n : Int) :
    (ownMembers id (key.zadd score (memberName id' n))).Perm (ownMembers id key) := by
  have hnew : hasPrefix ⟨score, memberName id' n⟩ id = false := by
    simpa using fun h => hne (hasPrefix_memberName.mp h)
  refine ((key.zadd_members_perm score (memberName id' n)).filter _).trans (.of_eq ?_)
  rw [List.filter_cons_of_neg (by simp [hnew]), List.filter_filter]
  refine List.filter_congr fun m _ => ?_
  -- A member of the reservation has another name than the new one.
  cases hpre : hasPrefix m id with
  | false => simp
  | true =>
    have hname : m.name ≠ memberName id' n := fun hname => hne <| by
      obtain ⟨s, name⟩ := m
      obtain rfl : name = memberName id' n := hname
      exact hasPrefix_memberName.mp hpre
    simp [hname]

theorem ownMembers_touch : (ownMembers id (key.touch served)).Sublist (ownMembers id key) := by
  by_cases hexp : key.Expired served
  · rw [SortedSet.touch_of_expired key hexp]
    exact List.nil_sublist _
  · rw [SortedSet.touch_of_not_expired key hexp]

theorem ownMembers_trimmed :
    (ownMembers id (trimmed apiKey key served clock)).Sublist (ownMembers id key) :=
  (List.filter_sublist.filter _).trans ownMembers_touch

/-- A call about another reservation adds no member of this one. -/
theorem ownMembers_serve (apiKey : ApiKey) {r : Request} (hother : r.about ≠ id) :
    (ownMembers id (serve apiKey key r).2).Subperm (ownMembers id key) := by
  obtain ⟨served, clock, call⟩ := r
  cases call with
  | reserve id' est =>
    change (ownMembers id (reserve apiKey key served clock id' est).2).Subperm _
    obtain ⟨-, hkey⟩ | ⟨total, -, -, heq⟩ := reserve_cases apiKey key served clock id' est
    · rw [hkey]
      exact ownMembers_trimmed.subperm
    · rw [heq, ownMembers, SortedSet.members_expire _ apiKey.windowSeconds_pos]
      exact (ownMembers_zadd hother clock est).subperm.trans ownMembers_trimmed.subperm
  | reconcile id' actual =>
    change (ownMembers id (reconcile key served clock id' actual).2).Subperm _
    obtain ⟨-, heq⟩ | ⟨m, -, -, heq⟩ := reconcile_cases key served clock id' actual
    · rw [heq]
      exact ownMembers_touch.subperm
    · rw [heq]
      refine (ownMembers_zadd hother clock actual).subperm.trans ?_
      exact ((List.filter_sublist.filter _).trans ownMembers_touch).subperm

theorem drawn_ne_of_about_ne {r : Request} (h : r.about ≠ id) : r.drawn ≠ some id := by
  obtain ⟨served, clock, call⟩ := r
  cases call with
  | reserve id' est => exact fun heq => h (Option.some.inj heq)
  | reconcile id' actual => exact nofun

/-! ## From the reservation to the end of its request -/

/-- The members of other reservations. -/
def otherMembers (id : ReservationId) (key : SortedSet) : List Member :=
  key.members.filter fun m => ! hasPrefix m id

/-- The reservation has lost its entry: on the way, or by now, when the key has expired or
the window has moved past it. -/
def Gone (apiKey : ApiKey) (id : ReservationId) (start between : List Request) (stamp : Time)
    (served clock : Time) : Prop :=
  (∃ mid r, mid ++ [r] <+: between ∧ Loses apiKey id ((limiter apiKey).state (start ++ mid)) r) ∨
    ((limiter apiKey).state (start ++ between)).Expired served ∨
    stamp ≤ clock - apiKey.windowSeconds

/-- The tokens that a reserve at this moment finds for other reservations. -/
def otherTotal (apiKey : ApiKey) (id : ReservationId) (key : SortedSet) (served clock : Time) :
    Int :=
  ((otherMembers id (trimmed apiKey key served clock)).map fun m => (memberCost m).getD 0).sum

/-- The entry of a reservation with this estimate counts for nothing: it is gone, or is
written in a form that no script can read. -/
def Spent (apiKey : ApiKey) (id : ReservationId) (est : Int) (start between : List Request)
    (stamp : Time) (served clock : Time) : Prop :=
  Gone apiKey id start between stamp served clock ∨ 10 ^ 14 ≤ est.natAbs

theorem ownMembers_before {before : List Request} (hothers : ∀ r ∈ before, r.about ≠ id) :
    ownMembers id ((limiter apiKey).state before) = [] := by
  induction before using List.reverseRecOn with
  | nil => rfl
  | append_singleton before r ih =>
    have hbefore := ih fun r' hr' => hothers r' (List.mem_append_left _ hr')
    have hlast : (ownMembers id (serve apiKey ((limiter apiKey).state before) r).2).Subperm
        (ownMembers id ((limiter apiKey).state before)) :=
      ownMembers_serve apiKey (hothers r (List.mem_append_right _ List.mem_cons_self))
    rw [hbefore, List.subperm_nil] at hlast
    rwa [Service.state_concat]

theorem ownMembers_reserve {est : Int} (hnone : ownMembers id key = [])
    (hadmitted : (serve apiKey key ⟨served, clock, .reserve id est⟩).1 = .admitted) :
    ownMembers id (serve apiKey key ⟨served, clock, .reserve id est⟩).2 =
      [⟨clock, memberName id est⟩] := by
  change (reserve apiKey key served clock id est).1 = .admitted at hadmitted
  change ownMembers id (reserve apiKey key served clock id est).2 = _
  obtain ⟨hno, -⟩ | ⟨total, -, -, heq⟩ := reserve_cases apiKey key served clock id est
  · exact absurd hadmitted hno
  · have hnew : hasPrefix ⟨clock, memberName id est⟩ id = true := hasPrefix_memberName.mpr rfl
    have hold : ownMembers id (trimmed apiKey key served clock) = [] := by
      have hsub : (ownMembers id (trimmed apiKey key served clock)).Sublist (ownMembers id key) :=
        ownMembers_trimmed
      rwa [hnone, List.sublist_nil] at hsub
    rw [heq, ownMembers, SortedSet.members_expire _ apiKey.windowSeconds_pos]
    refine List.perm_singleton.mp (((SortedSet.zadd_members_perm _ _ _).filter _).trans (.of_eq ?_))
    rw [List.filter_cons_of_pos (by simpa using hnew), List.filter_comm]
    change _ :: (ownMembers id (trimmed apiKey key served clock)).filter _ = _
    rw [hold]
    rfl

theorem ownMembers_between {start between : List Request} {m : Member}
    (hstart : ownMembers id ((limiter apiKey).state start) = [m])
    (hothers : ∀ r ∈ between, r.about ≠ id) :
    (ownMembers id ((limiter apiKey).state (start ++ between))).Subperm [m] := by
  induction between using List.reverseRecOn with
  | nil =>
    rw [List.append_nil, hstart]
  | append_singleton between r ih =>
    rw [← List.append_assoc, Service.state_concat]
    have hother := hothers r (List.mem_append_right _ List.mem_cons_self)
    refine (ownMembers_serve apiKey hother).trans ?_
    exact ih fun r' hr' => hothers r' (List.mem_append_left _ hr')

theorem tokenTotal_eq (key : SortedSet) (id : ReservationId) : tokenTotal apiKey key served clock =
    ((ownMembers id (trimmed apiKey key served clock)).map fun m => (memberCost m).getD 0).sum +
    otherTotal apiKey id key served clock := by
  rw [otherTotal, ← List.sum_append, ← List.map_append]
  exact ((List.filter_append_perm _ _).map _).sum_eq.symm

theorem eq_nil_or_eq_of_subperm {α : Type} {l : List α} {a : α} (h : l.Subperm [a]) :
    l = [] ∨ l = [a] := by
  obtain ⟨l', hperm, hsub⟩ := h
  obtain rfl | rfl := List.sublist_singleton.mp hsub
  · exact .inl hperm.nil_eq.symm
  · exact .inr (List.perm_singleton.mp hperm.symm)

/-- The entry of a reservation that no later call is about is dropped exactly by what `Gone`
lists. -/
theorem ownMembers_trimmed_eq_nil_iff {start between : List Request} {clock₀ : Time} {est : Int}
    (hstart : ownMembers id ((limiter apiKey).state start) = [⟨clock₀, memberName id est⟩])
    (hbetween : ∀ r ∈ between, r.about ≠ id) (served clock : Time) :
    ownMembers id (trimmed apiKey ((limiter apiKey).state (start ++ between)) served clock) = [] ↔
      Gone apiKey id start between clock₀ served clock := by
  have hsurvives := (limiter apiKey).survives_iff (Holds id) (Loses apiKey id) start between
    fun key r hr => holds_serve (drawn_ne_of_about_ne (hbetween r hr))
  rw [and_iff_right (holds_iff_ownMembers.mpr (by simp [hstart]))] at hsurvives
  rw [← not_iff_not, ← ne_eq, ← holds_iff_ownMembers, holds_trimmed, hsurvives]
  unfold Gone
  simp only [not_or, not_exists, not_and]
  refine and_congr_right fun hkept => and_congr_right fun _ => not_congr ?_
  obtain hnil | hone := eq_nil_or_eq_of_subperm (ownMembers_between hstart hbetween)
  · exact absurd hnil (holds_iff_ownMembers.mp (hsurvives.mpr hkept))
  · constructor
    · intro h
      have hmem : (⟨clock₀, memberName id est⟩ : Member) ∈
          ownMembers id ((limiter apiKey).state (start ++ between)) := by
        simp [hone]
      obtain ⟨hmem, hpre⟩ := List.mem_filter.mp hmem
      exact h _ hmem hpre
    · intro h m hmem hpre
      have hm : m ∈ ownMembers id ((limiter apiKey).state (start ++ between)) :=
        List.mem_filter.mpr ⟨hmem, hpre⟩
      rw [hone, List.mem_singleton] at hm
      rwa [hm]

/-- With the reservation the key counts its other entries and, unless it is spent, the
estimate. -/
theorem tokenTotal_abandoned {start between : List Request} {clock₀ : Time} {est : Int}
    (hstart : ownMembers id ((limiter apiKey).state start) = [⟨clock₀, memberName id est⟩])
    (hbetween : ∀ r ∈ between, r.about ≠ id) (served clock : Time) :
    (Spent apiKey id est start between clock₀ served clock →
      tokenTotal apiKey ((limiter apiKey).state (start ++ between)) served clock =
        otherTotal apiKey id ((limiter apiKey).state (start ++ between)) served clock) ∧
    (¬ Spent apiKey id est start between clock₀ served clock →
      tokenTotal apiKey ((limiter apiKey).state (start ++ between)) served clock =
        est + otherTotal apiKey id ((limiter apiKey).state (start ++ between)) served clock) := by
  have hsub := ownMembers_between hstart hbetween
  have hgone := ownMembers_trimmed_eq_nil_iff hstart hbetween served clock
  rw [tokenTotal_eq _ id]
  obtain hnil | hone := eq_nil_or_eq_of_subperm (ownMembers_trimmed.subperm.trans hsub)
  · rw [hnil, List.map_nil, List.sum_nil, zero_add]
    exact ⟨fun _ => rfl, fun hleft => absurd (.inl (hgone.mp hnil)) hleft⟩
  · rw [hone, List.map_singleton, List.sum_singleton, memberCost_memberName]
    have hstays : ¬ Gone apiKey id start between clock₀ served clock := fun h => by
      rw [hgone.mpr h] at hone
      exact nomatch hone
    split
    · rename_i hsmall
      refine ⟨fun hspent => ?_, fun _ => rfl⟩
      exact absurd hsmall (Nat.not_lt.mpr (hspent.resolve_left hstays))
    · rename_i hlarge
      refine ⟨fun _ => by simp, fun hleft => ?_⟩
      exact absurd (.inr (Nat.le_of_not_lt hlarge)) hleft

/-- The key counts as many tokens as without the reservation exactly if the reservation is
spent and the other entries count as many as without it, or it is not and they count as many
less as it counts. The other calls are the same in both runs. -/
theorem abandoned_unspent_iff (apiKey : ApiKey) (before between : List Request)
    (served₀ clock₀ served clock : Time) (id : ReservationId) (est : Int)
    (hadmitted : (serve apiKey ((limiter apiKey).state before)
      ⟨served₀, clock₀, .reserve id est⟩).1 = .admitted)
    (hothers : ∀ r ∈ before ++ between, r.about ≠ id) :
    let start := before ++ [⟨served₀, clock₀, .reserve id est⟩]
    let withRequest := (limiter apiKey).state (start ++ between)
    let without := (limiter apiKey).state (before ++ between)
    tokenTotal apiKey withRequest served clock = tokenTotal apiKey without served clock ↔
      (Spent apiKey id est start between clock₀ served clock ∧
        otherTotal apiKey id withRequest served clock =
          otherTotal apiKey id without served clock) ∨
      (¬ Spent apiKey id est start between clock₀ served clock ∧
        est + otherTotal apiKey id withRequest served clock =
          otherTotal apiKey id without served clock) := by
  intro start withRequest without
  obtain ⟨hbefore, hbetween⟩ := List.forall_mem_append.mp hothers
  have hstart : ownMembers id ((limiter apiKey).state start) = [⟨clock₀, memberName id est⟩] := by
    rw [Service.state_concat]
    exact ownMembers_reserve (ownMembers_before hbefore) hadmitted
  have hwithout : tokenTotal apiKey without served clock =
      otherTotal apiKey id without served clock := by
    have hnone : ownMembers id without = [] := ownMembers_before hothers
    have htrim : (ownMembers id (trimmed apiKey without served clock)).Sublist
        (ownMembers id without) := ownMembers_trimmed
    rw [hnone, List.sublist_nil] at htrim
    rw [tokenTotal_eq without id, htrim, List.map_nil, List.sum_nil, zero_add]
  obtain ⟨hspent, hleft⟩ := tokenTotal_abandoned hstart hbetween served clock
  change _ → tokenTotal apiKey withRequest served clock = _ at hspent hleft
  rw [hwithout]
  by_cases h : Spent apiKey id est start between clock₀ served clock
  · rw [hspent h, and_iff_right h, or_iff_left fun hboth => hboth.1 h]
  · rw [hleft h, and_iff_right h, or_iff_right fun hboth => h hboth.1]

end InferenceGateway.Resilience.RateLimit
