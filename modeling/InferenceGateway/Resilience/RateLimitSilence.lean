import InferenceGateway.Resilience.RateLimit

/-!
# Recovery of a rate limit

Every member of the set is stamped with the clock reading of some call. Once all of them are a
window old, the next reserve trims the whole set away, and the limiter is as good as new. This
needs no assumption about the calls before: their costs may be negative or unreadable, their ids
may be reused, and their clocks may disagree.
-/
namespace InferenceGateway.Resilience.RateLimit
open Library Redis

/-- Every member is stamped with a clock reading of a call. -/
def Stamped (past : List Event) (key : SortedSet) : Prop :=
  ∀ m ∈ key.members, ∃ e ∈ past, m.score = e.1.clock

variable {apiKey : ApiKey} {past : List Event} {key : SortedSet}

theorem Stamped.of_subset {key' : SortedSet} (h : Stamped past key)
    (hsub : key'.members ⊆ key.members) : Stamped past key' :=
  fun m hm => h m (hsub hm)

theorem Stamped.touch (h : Stamped past key) (now : Time) : Stamped past (key.touch now) :=
  key.touch_intro (fun _ hm => absurd hm (by simp [SortedSet.empty])) h now

/-- What a call adds bears its own stamp. -/
theorem Stamped.zadd (h : Stamped past key) (r : Request) (reply : Reply) (name : String) :
    Stamped (past ++ [(r, reply)]) (key.zadd r.clock name) := by
  intro m hm
  obtain rfl | hold := List.mem_cons.mp ((key.zadd_members_perm r.clock name).mem_iff.mp hm)
  · exact ⟨_, List.mem_append_right _ (List.mem_singleton_self _), rfl⟩
  · obtain ⟨e, he, hscore⟩ := h m (List.mem_filter.mp hold).1
    exact ⟨e, List.mem_append_left _ he, hscore⟩

theorem Stamped.later (h : Stamped past key) (e : Event) : Stamped (past ++ [e]) key :=
  fun m hm => have ⟨e', he', hscore⟩ := h m hm
    ⟨e', List.mem_append_left _ he', hscore⟩

/-- One call keeps every stamp, whatever it answers. -/
theorem Stamped.serve (h : Stamped past key) (r : Request) :
    Stamped (past ++ [(r, (serve apiKey key r).1)]) (serve apiKey key r).2 := by
  obtain ⟨served, clock, call⟩ := r
  cases call with
  | reserve id est =>
    have htrimmed : Stamped past (trimmed apiKey key served clock) :=
      (h.touch served).of_subset (List.filter_subset_self _)
    obtain ⟨-, hkey⟩ | ⟨total, -, -, heq⟩ := reserve_cases apiKey key served clock id est
    · exact (htrimmed.later _).of_subset (by simp [RateLimit.serve, hkey])
    · simp only [RateLimit.serve, heq]
      have hadded := htrimmed.zadd ⟨served, clock, .reserve id est⟩ .admitted (memberName id est)
      refine hadded.of_subset ?_
      rw [SortedSet.members_expire _ apiKey.windowSeconds_pos]
      exact List.Subset.refl _
  | reconcile id actual =>
    obtain ⟨-, heq⟩ | ⟨m, -, -, heq⟩ := reconcile_cases key served clock id actual
    · simp only [RateLimit.serve, heq]
      exact (h.touch served).later _
    · simp only [RateLimit.serve, heq]
      refine Stamped.zadd ?_ ⟨served, clock, .reconcile id actual⟩ _ _
      exact (h.touch served).of_subset (List.filter_subset_self _)

theorem stamped (apiKey : ApiKey) (requests : List Request) :
    Stamped ((limiter apiKey).history requests) ((limiter apiKey).state requests) :=
  (limiter apiKey).invariant Stamped (fun _ hm => absurd hm (by simp [limiter, SortedSet.empty]))
    (fun _ _ r h => h.serve r) requests

/-- A reserve that is a window later than every stamp finds nothing. -/
theorem Stamped.trimmed_eq (h : Stamped past key) {clock : Time}
    (hsilent : ∀ e ∈ past, e.1.clock + apiKey.windowSeconds ≤ clock) (served : Time) :
    trimmed apiKey key served clock = .empty := by
  have hnone : ((key.touch served).members.filter fun m =>
      clock - apiKey.windowSeconds < m.score) = [] := by
    refine List.filter_eq_nil_iff.mpr fun m hm => ?_
    obtain ⟨e, he, hscore⟩ := h.touch served m hm
    have hold := hsilent e he
    rw [hscore, decide_eq_true_iff, not_lt]
    exact le_sub_iff_add_le.mpr hold
  unfold trimmed SortedSet.zremrangebyscore
  rw [hnone]
  rfl

/-- The script looks at the trimmed set only. -/
theorem reserve_congr {key key' : SortedSet} {served clock : Time}
    (h : trimmed apiKey key served clock = trimmed apiKey key' served clock) (id : ReservationId)
    (est : Int) :
    reserve apiKey key served clock id est = reserve apiKey key' served clock id est := by
  unfold trimmed at h
  simp only [reserve, reserveScript, h]

/-- A new limiter admits what fits in the budget. -/
theorem reserve_empty (apiKey : ApiKey) (served clock : Time) (id : ReservationId) (est : Nat) :
    (reserve apiKey .empty served clock id est).1 =
      if (est : Int) ≤ apiKey.tokenBudget then .admitted else .denied := by
  have hbudget : LuaNumber.ofInt apiKey.tokenBudget = apiKey.tokenBudget := by
    have hle := apiKey.tokenBudget_le
    have hpos := apiKey.tokenBudget_pos
    exact LuaNumber.ofInt_of_small (by omega)
  have hfits : LuaNumber.ofInt (0 + LuaNumber.ofInt est) ≤ apiKey.tokenBudget ↔
      (est : Int) ≤ apiKey.tokenBudget := by
    have hle := apiKey.tokenBudget_le
    have hpos := apiKey.tokenBudget_pos
    have hzero : Rounding.deficit [(est : Int)] = 0 :=
      Rounding.deficit_eq_zero (by simp)
    have hroom : Rounding.deficit [(est : Int)] + apiKey.tokenBudget < binary64.limit := by
      rw [hzero]
      exact (by omega : 0 + apiKey.tokenBudget < 2 ^ 53)
    have hsum := binary64.sum_le_iff [(est : Int)] (by omega) hroom
    simpa [Rounding.sum, Rounding.sumFrom, LuaNumber.ofInt] using hsum
  have hempty : ((SortedSet.empty.touch served).zremrangebyscore
      (clock - apiKey.windowSeconds)).members = [] := rfl
  simp only [reserve, reserveScript, hempty, sumCosts, hbudget]
  by_cases hest : (est : Int) ≤ apiKey.tokenBudget
  · rw [if_neg (not_lt.mpr (hfits.mpr hest)), if_pos hest]
  · rw [if_pos (not_le.mp fun h => hest (hfits.mp h)), if_neg hest]

/-- Whatever calls a limiter has served: a reserve that comes a window after the last of their
clock readings is admitted exactly if it fits in the budget, and from then on the limiter and
its answers are those of a new one. -/
theorem silence_forgets (apiKey : ApiKey) (before after : List Request) (served clock : Time)
    (id : ReservationId) (est : Nat)
    (hsilent : ∀ r ∈ before, r.clock + apiKey.windowSeconds ≤ clock) :
    let r : Request := ⟨served, clock, .reserve id est⟩
    (serve apiKey ((limiter apiKey).state before) r).1 =
        (if (est : Int) ≤ apiKey.tokenBudget then .admitted else .denied) ∧
      (limiter apiKey).state (before ++ r :: after) = (limiter apiKey).state (r :: after) ∧
      (limiter apiKey).history (before ++ r :: after) =
        (limiter apiKey).history before ++ (limiter apiKey).history (r :: after) := by
  intro r
  have hpast : ∀ e ∈ (limiter apiKey).history before,
      e.1.clock + apiKey.windowSeconds ≤ clock := fun e he =>
    hsilent e.1 ((limiter apiKey).map_fst_history before ▸ List.mem_map_of_mem he)
  have hempty : Stamped [] (SortedSet.empty) := fun _ hm => absurd hm (by simp [SortedSet.empty])
  have htrimmed : trimmed apiKey ((limiter apiKey).state before) served clock =
      trimmed apiKey .empty served clock :=
    ((stamped apiKey before).trimmed_eq hpast served).trans
      (hempty.trimmed_eq (List.forall_mem_nil _) served).symm
  have hserve : (limiter apiKey).serve ((limiter apiKey).state before) r =
      (limiter apiKey).serve (limiter apiKey).initial r := reserve_congr htrimmed id est
  refine ⟨?_, (limiter apiKey).forgets hserve after⟩
  exact (congrArg Prod.fst hserve).trans (reserve_empty apiKey served clock id est)

/-- A cost that cannot be read back makes a reserve raise, but not a minute later. -/
theorem silence_forgets_unreadable :
    let before : List Request := [⟨0, 0, .reserve idA 10⟩, ⟨5, 5, .reconcile idA (10 ^ 15)⟩,
      ⟨30, 30, .reserve idB 10⟩]
    let r : Request := ⟨90, 90, .reserve idC 100⟩
    ((limiter perMinute).history before).map Prod.snd = [.admitted, .settled, .raised] ∧
      (serve perMinute ((limiter perMinute).state before) r).1 = .admitted ∧
      (limiter perMinute).state (before ++ [r]) = (limiter perMinute).state [r] := by
  intro before r
  obtain ⟨hreply, hstate, -⟩ :=
    silence_forgets perMinute before [] 90 90 idC 100 (by decide +kernel)
  exact ⟨by decide +kernel, hreply, hstate⟩

end InferenceGateway.Resilience.RateLimit
