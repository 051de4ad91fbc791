import InferenceGateway.Resilience.RateLimitReconcile

/-!
# The deadline of the key

Only the reserve script gives the key a deadline. The reconcile script removes a member
before it adds the new one; if that was the only member then Redis has deleted the key
in between, and the new key has no deadline.
-/
namespace InferenceGateway.Resilience.RateLimit
open Library Redis

/-- If the key exists then it has a deadline. -/
def Mortal (key : SortedSet) : Prop := key.members ≠ [] → ∃ d, key.deadline = some d

instance (key : SortedSet) : Decidable (Mortal key) :=
  decidable_of_iff (key.members ≠ [] → key.deadline.isSome)
    (imp_congr_right fun _ => Option.isSome_iff_exists)

/-- Left alone, the key is gone from some time on. -/
def Vanishes (key : SortedSet) : Prop := ∃ d, ∀ served, d < served → key.touch served = .empty

/-- A reconcile that finds its reservation as the only member. -/
def Lone (key : SortedSet) (r : Request) : Prop :=
  ∃ id actual m, r.call = .reconcile id actual ∧ (key.touch r.served).members = [m] ∧
    hasPrefix m id

/-- No two members have the same name. -/
def Distinct (key : SortedSet) : Prop := (key.members.map Member.name).Nodup

variable {apiKey : ApiKey} {key : SortedSet} {served : Time}

theorem eq_empty_of_members {key : SortedSet} (h : key.members = []) : key = .empty := by
  obtain ⟨members, deadline, hdeadline⟩ := key
  obtain rfl : members = [] := h
  obtain rfl := hdeadline rfl
  rfl

theorem mortal_iff_vanishes : Mortal key ↔ Vanishes key := by
  constructor
  · intro h
    by_cases hnone : key.members = []
    · refine ⟨0, fun served _ => ?_⟩
      rw [eq_empty_of_members hnone]
      rfl
    · obtain ⟨d, hd⟩ := h hnone
      exact ⟨d, fun served hlt => key.touch_of_expired ⟨d, hd, hlt⟩⟩
  · rintro ⟨d, hd⟩ hsome
    by_contra hno
    have hlive : ¬ key.Expired (d + 1) := fun ⟨d', hd', _⟩ => hno ⟨d', hd'⟩
    have hgone := hd (d + 1) (lt_add_one d)
    rw [key.touch_of_not_expired hlive] at hgone
    exact hsome (congrArg SortedSet.members hgone)

/-! ## Names stay distinct -/

theorem Distinct.of_sublist {members : List Member} {deadline : Option Time} (h : Distinct key)
    (hsub : members.Sublist key.members) : Distinct (.keep members deadline) :=
  h.sublist (hsub.map _)

theorem Distinct.touch (h : Distinct key) (served : Time) : Distinct (key.touch served) :=
  key.touch_intro List.nodup_nil h served

theorem Distinct.zadd (h : Distinct key) (score : Time) (name : String) :
    Distinct (key.zadd score name) := by
  have hperm := (key.zadd_members_perm score name).map Member.name
  refine hperm.nodup_iff.mpr (List.nodup_cons.mpr ⟨fun hmem => ?_, ?_⟩)
  · obtain ⟨m, hm, hname⟩ := List.mem_map.mp hmem
    exact of_decide_eq_true (List.mem_filter.mp hm).2 hname
  · exact h.sublist (List.filter_sublist.map _)

theorem Distinct.serve (h : Distinct key) (apiKey : ApiKey) (r : Request) :
    Distinct (serve apiKey key r).2 := by
  obtain ⟨served, clock, call⟩ := r
  cases call with
  | reserve id est =>
    have htrim : Distinct (trimmed apiKey key served clock) :=
      (h.touch served).of_sublist List.filter_sublist
    change Distinct (reserve apiKey key served clock id est).2
    obtain ⟨-, hkey⟩ | ⟨total, -, -, heq⟩ := reserve_cases apiKey key served clock id est
    · rw [hkey]
      exact htrim
    · rw [heq, Distinct, SortedSet.members_expire _ apiKey.windowSeconds_pos]
      exact htrim.zadd clock (memberName id est)
  | reconcile id actual =>
    change Distinct (reconcile key served clock id actual).2
    obtain ⟨-, heq⟩ | ⟨m, -, -, heq⟩ := reconcile_cases key served clock id actual
    · rw [heq]
      exact h.touch served
    · rw [heq]
      exact ((h.touch served).of_sublist List.filter_sublist).zadd clock _

theorem limiter_distinct (apiKey : ApiKey) (requests : List Request) :
    Distinct ((limiter apiKey).state requests) :=
  (limiter apiKey).invariant (fun _ key => Distinct key) List.nodup_nil
    (fun _ _ r h => h.serve apiKey r) requests

/-- Removing one of several members leaves the deadline, removing the last one drops it. -/
theorem zrem_members_eq_nil_iff (h : Distinct key) {m : Member} (hm : m ∈ key.members) :
    (key.zrem m.name).members = [] ↔ key.members = [m] := by
  rw [SortedSet.members_zrem]
  constructor
  · intro hnil
    have hall : ∀ m' ∈ key.members, m' = m := fun m' hm' => by
      have hname := List.filter_eq_nil_iff.mp hnil m' hm'
      exact List.inj_on_of_nodup_map h hm' hm (by simpa using hname)
    refine List.perm_singleton.mp ((List.perm_ext_iff_of_nodup (h.of_map _)
      (List.nodup_singleton m)).mpr fun m' => ?_)
    rw [List.mem_singleton]
    exact ⟨hall m', fun heq => heq ▸ hm⟩
  · intro hone
    rw [hone]
    simp

/-! ## What keeps the deadline -/

theorem Mortal.touch (h : Mortal key) (served : Time) : Mortal (key.touch served) :=
  key.touch_intro (fun hne => absurd rfl hne) h served

theorem Mortal.keep (h : Mortal key) {members : List Member} (hsub : members.Sublist key.members) :
    Mortal (.keep members key.deadline) := by
  intro hne
  have hsome : key.members ≠ [] := fun hnil => hne (by rwa [hnil, List.sublist_nil] at hsub)
  obtain ⟨d, hd⟩ := h hsome
  exact ⟨d, (if_neg hne).trans hd⟩

/-- `ZADD` leaves the key mortal if it was there and was mortal. -/
theorem mortal_zadd_iff (h : Mortal key) (score : Time) (name : String) :
    Mortal (key.zadd score name) ↔ key.members ≠ [] := by
  rw [Mortal, SortedSet.deadline_zadd, forall_prop_of_true (key.members_zadd_ne_nil score name)]
  refine ⟨?_, h⟩
  rintro ⟨d, hd⟩ hnil
  exact nomatch hd.symm.trans (key.deadline_of_empty hnil)

/-- A call leaves the key without a deadline exactly if it is a lone reconcile. -/
theorem mortal_serve_iff (h : Mortal key) (hdistinct : Distinct key) (apiKey : ApiKey)
    (r : Request) : Mortal (serve apiKey key r).2 ↔ ¬ Lone key r := by
  obtain ⟨served, clock, call⟩ := r
  cases call with
  | reserve id est =>
    refine iff_of_true ?_ ?_
    · have htrim : Mortal (trimmed apiKey key served clock) :=
        (h.touch served).keep List.filter_sublist
      change Mortal (reserve apiKey key served clock id est).2
      obtain ⟨-, hkey⟩ | ⟨total, -, -, heq⟩ := reserve_cases apiKey key served clock id est
      · rw [hkey]
        exact htrim
      · rw [heq]
        exact fun _ => ⟨_, SortedSet.deadline_expire _ apiKey.windowSeconds_pos
          (SortedSet.members_zadd_ne_nil _ clock _)⟩
    · rintro ⟨id', actual, m, hcall, -⟩
      exact nomatch hcall
  | reconcile id actual =>
    change Mortal (reconcile key served clock id actual).2 ↔ _
    obtain ⟨hnone, heq⟩ | ⟨m, hm, hpre, heq⟩ := reconcile_cases key served clock id actual
    · rw [heq]
      refine iff_of_true (h.touch served) ?_
      rintro ⟨id', actual', m, hcall, hone, hpre⟩
      obtain ⟨rfl, rfl⟩ := Call.reconcile.inj hcall
      exact hnone m (by rw [hone]; exact List.mem_singleton_self m) hpre
    · have hrem : Mortal ((key.touch served).zrem m.name) :=
        (h.touch served).keep List.filter_sublist
      rw [heq, mortal_zadd_iff hrem, ne_eq, not_iff_not,
        zrem_members_eq_nil_iff (hdistinct.touch served) hm]
      constructor
      · exact fun hone => ⟨id, actual, m, rfl, hone, hpre⟩
      · rintro ⟨id', actual', m', -, hone, -⟩
        have hm' := hm
        rw [hone, List.mem_singleton] at hm'
        rwa [hm']

/-- Throughout a run an existing key has a deadline, and so vanishes when it is left alone,
exactly if no reconcile finds its reservation as the only member. -/
theorem always_mortal_iff (apiKey : ApiKey) (requests : List Request) :
    (∀ before, before <+: requests → Mortal ((limiter apiKey).state before) ∧
        Vanishes ((limiter apiKey).state before)) ↔
      (limiter apiKey).Along (fun _ key r => ¬ Lone key r) requests := by
  rw [← (limiter apiKey).always_iff_along Mortal (fun key r => ¬ Lone key r)
    (fun hne => absurd rfl hne)
    fun calls r h => mortal_serve_iff h (limiter_distinct apiKey calls) apiKey r]
  refine forall₂_congr fun before _ => ?_
  rw [← mortal_iff_vanishes, and_self_iff]

/-- A single request: the reconcile replaces the only member, and the key stays for good. -/
theorem single_request_immortal :
    ¬ ∀ before, before <+: [⟨0, 0, .reserve idA 10⟩, ⟨1, 1, .reconcile idA 20⟩] →
      Mortal ((limiter perMinute).state before) ∧
        Vanishes ((limiter perMinute).state before) := fun h =>
  absurd (h _ List.prefix_rfl).1 (by decide +kernel)

end InferenceGateway.Resilience.RateLimit
