import InferenceGateway.Resilience.RateLimitLedger
import Mathlib.Tactic.Linarith

/-!
# Budget safety with skewed clocks

Replicas stamp and trim with their own clocks, Redis expires the key with its own. If no
clock is off by more than `d`, no charge admitted within the last window less `2 * d` is
ever removed: its stamp is at most `d` early, a trim is at most `d` late, and every
deadline is at least a window after the last admission. Costs must not be negative. A
negative cost is a refund to the window it is stamped in, which can be a later window
than the one it was admitted in.
-/
namespace InferenceGateway.Resilience.RateLimit
open Library Redis WindowLog

def Call.tokens : Call → Int
  | .reserve _ estTokens => estTokens
  | .reconcile _ actualTokens => actualTokens

/-- The current costs of the reservations admitted in the window that ends now, shortened
by `2 * d`. -/
def admittedCosts (past : List Event) (window : Int) (d now : Time) : List Int :=
  costs (charges ((ledger past).filter fun x =>
    now - window + 2 * d < x.admittedAt ∧ x.admittedAt ≤ now))

/-- Right after an admission the shortened window fits under the budget. -/
def BudgetSafe (apiKey : ApiKey) (d : Time) (past : List Event) (key : SortedSet)
    (r : Request) : Prop :=
  (serve apiKey key r).1 = .admitted →
    (admittedCosts (past ++ [(r, (serve apiKey key r).1)]) apiKey.windowSeconds d r.served).sum ≤
      apiKey.tokenBudget

instance (apiKey : ApiKey) (d : Time) (past : List Event) (key : SortedSet) (r : Request) :
    Decidable (BudgetSafe apiKey d past key r) :=
  inferInstanceAs (Decidable (_ → _))

/-- The caller's clock is at most `d` away from that of Redis. -/
structure Skewed (d : Time) (past : List Event) (r : Request) : Prop where
  orderly : Orderly past r
  early : r.served - d ≤ r.clock
  late : r.clock ≤ r.served + d

instance (d : Time) (past : List Event) (r : Request) : Decidable (Skewed d past r) :=
  decidable_of_iff (Orderly past r ∧ r.served - d ≤ r.clock ∧ r.clock ≤ r.served + d)
    ⟨fun h => ⟨h.1, h.2.1, h.2.2⟩, fun h => ⟨h.orderly, h.early, h.late⟩⟩

/-- The reservation is still stored, with a stamp and under a deadline that keep it so for
the rest of its shortened window. -/
structure Safe (apiKey : ApiKey) (d : Time) (key : SortedSet) (log : Log) (x : Reservation) :
    Prop where
  stored : x.charge ∈ log
  stamp : x.admittedAt - d ≤ x.charge.stamp
  deadline : ∀ t, key.deadline = some t → x.admittedAt + apiKey.windowSeconds ≤ t

/-- At every later time the log holds what was admitted in the shortened window. -/
structure Guarded (apiKey : ApiKey) (d : Time) (past : List Event) (key : SortedSet) (log : Log) :
    Prop where
  entered : Entered past
  represents : Represents key log
  booked : ids log ⊆ ids (charges (ledger past))
  nonneg : ∀ c ∈ log, 0 ≤ c.cost
  admittedAt : ∀ now, (∀ e ∈ past, e.1.served ≤ now) → ∀ x ∈ ledger past, x.admittedAt ≤ now
  safe : ∀ now, (∀ e ∈ past, e.1.served ≤ now) → ∀ x ∈ ledger past,
    now - apiKey.windowSeconds + 2 * d < x.admittedAt → Safe apiKey d key log x

variable {apiKey : ApiKey} {d : Time} {past : List Event} {key key' : SortedSet}
  {log live log' : Log} {r : Request} {reply : Reply} {x : Reservation}

/-- A safe reservation is not expired when a request arrives. -/
theorem Safe.mem_live (h : Safe apiKey d key log x) (hd : 0 ≤ d)
    (hrecent : r.served - apiKey.windowSeconds + 2 * d < x.admittedAt)
    (hlive : (¬ key.Expired r.served ∧ live = log) ∨ (key.Expired r.served ∧ live = [])) :
    x.charge ∈ live := by
  obtain ⟨-, rfl⟩ | ⟨⟨t, ht, hlt⟩, rfl⟩ := hlive
  · exact h.stored
  · have := h.deadline t ht
    linarith

/-- A reserve does not trim it either. -/
theorem Safe.mem_trim (h : Safe apiKey d key log x) (hs : Skewed d past r)
    (hrecent : r.served - apiKey.windowSeconds + 2 * d < x.admittedAt) (hlive : x.charge ∈ live) :
    x.charge ∈ trim (r.clock - apiKey.windowSeconds) live := by
  have hstamp := h.stamp
  have hlate := hs.late
  exact WindowLog.mem_trim.mpr ⟨hlive, by linarith⟩

/-- A reservation of the ledger after a move is the one just admitted, or an earlier one
with the charge it had or the one it was settled to. -/
theorem mem_book (hmoves : Moves apiKey live r reply log')
    (hx : x ∈ book (ledger past) (r, reply)) :
    (reply = .admitted ∧ x.admittedAt = r.served ∧ x.charge.stamp = r.clock ∧ x.charge ∈ log') ∨
    ∃ y ∈ ledger past, y.admittedAt = x.admittedAt ∧
      (y.charge.stamp = x.charge.stamp ∨ x.charge.stamp = r.clock) ∧
      (y.charge ∈ live → y.charge ∈ trim (r.clock - apiKey.windowSeconds) live →
        x.charge ∈ log') := by
  cases hmoves with
  | @grant served clock id est hfits =>
    rw [book_admitted] at hx
    obtain hold | hnew := List.mem_append.mp hx
    · exact .inr ⟨x, hold, rfl, .inl rfl, fun _ htrim => List.mem_append_left _ htrim⟩
    · obtain rfl := List.mem_singleton.mp hnew
      exact .inl ⟨rfl, rfl, rfl, List.mem_append_right _ (List.mem_singleton_self _)⟩
  | @refuse served clock id est _ hno =>
    rw [book_refused _ _ _ _ _ hno] at hx
    exact .inr ⟨x, hx, rfl, .inl rfl, fun _ htrim => htrim⟩
  | @settle served clock id actual hid =>
    rw [book_reconcile] at hx
    obtain ⟨y, hy, rfl⟩ := List.mem_map.mp hx
    refine .inr ⟨y, hy, ?_⟩
    unfold Reservation.reconciled
    split
    · exact ⟨rfl, .inr rfl, fun _ _ => mem_settle.mpr (.inr ⟨rfl, hid⟩)⟩
    · rename_i hne
      exact ⟨rfl, .inl rfl, fun hlive _ => mem_settle.mpr (.inl ⟨hlive, hne⟩)⟩
  | @miss served clock id actual hid =>
    rw [book_reconcile] at hx
    obtain ⟨y, hy, rfl⟩ := List.mem_map.mp hx
    refine .inr ⟨y, hy, ?_⟩
    unfold Reservation.reconciled
    split
    · rename_i heq
      exact ⟨rfl, .inr rfl, fun hlive _ => absurd (mem_ids.mpr ⟨_, hlive, heq⟩) hid⟩
    · exact ⟨rfl, .inl rfl, fun hlive _ => hlive⟩

/-- A move keeps the log inside the ledger and its costs non-negative. -/
theorem Moves.log_subset (hmoves : Moves apiKey live r reply log')
    (hbooked : ids live ⊆ ids (charges (ledger past))) (hcost : 0 ≤ r.call.tokens)
    (hnonneg : ∀ c ∈ live, 0 ≤ c.cost) :
    ids log' ⊆ ids (charges (ledger (past ++ [(r, reply)]))) ∧ ∀ c ∈ log', 0 ≤ c.cost := by
  rw [ledger_concat]
  cases hmoves with
  | @grant served clock id est hfits =>
    rw [book_admitted, charges_append, ids_append, ids_append]
    refine ⟨List.append_subset.mpr ⟨?_, List.subset_append_right _ _⟩, fun c hc => ?_⟩
    · refine List.Subset.trans ?_ (List.subset_append_left _ _)
      exact List.Subset.trans (ids_trim_sublist _ _).subset hbooked
    · obtain hold | hnew := List.mem_append.mp hc
      · exact hnonneg c (WindowLog.mem_trim.mp hold).1
      · obtain rfl := List.mem_singleton.mp hnew
        exact hcost
  | @refuse served clock id est _ hno =>
    rw [book_refused _ _ _ _ _ hno]
    exact ⟨List.Subset.trans (ids_trim_sublist _ _).subset hbooked,
      fun c hc => hnonneg c (WindowLog.mem_trim.mp hc).1⟩
  | @settle served clock id actual hid =>
    rw [book_reconcile, charges_reconciled, ids_settle, ids_settle]
    refine ⟨hbooked, fun c hc => ?_⟩
    obtain ⟨hold, -⟩ | ⟨rfl, -⟩ := mem_settle.mp hc
    · exact hnonneg c hold
    · exact hcost
  | @miss served clock id actual hid =>
    rw [book_reconcile, charges_reconciled, ids_settle]
    exact ⟨hbooked, hnonneg⟩

theorem Guarded.fresh (h : Guarded apiKey d past key log) (hs : Skewed d past r)
    {id : ReservationId} (hid : r.drawn = some id) : id ∉ ids log := fun hmem =>
  h.entered.not_mem hs.orderly hid (h.booked hmem)

/-- One request keeps the guard, whatever it answers. -/
theorem Guarded.concat (h : Guarded apiKey d past key log) (hd : 0 ≤ d) (hs : Skewed d past r)
    (hcost : 0 ≤ r.call.tokens)
    (hlive : (¬ key.Expired r.served ∧ live = log) ∨ (key.Expired r.served ∧ live = []))
    (hmoves : Moves apiKey live r reply log') (hrep : Represents key' log')
    (hdead : DeadlineMoves apiKey key r.served reply key') :
    Guarded apiKey d (past ++ [(r, reply)]) key' log' := by
  have hbooked : ids live ⊆ ids (charges (ledger past)) := by
    obtain ⟨-, rfl⟩ | ⟨-, rfl⟩ := hlive
    · exact h.booked
    · exact List.nil_subset _
  have hnonneg : ∀ c ∈ live, 0 ≤ c.cost := by
    obtain ⟨-, rfl⟩ | ⟨-, rfl⟩ := hlive
    · exact h.nonneg
    · simp
  obtain ⟨hbooked', hnonneg'⟩ := hmoves.log_subset hbooked hcost hnonneg
  have hserved : ∀ now, (∀ e ∈ past ++ [(r, reply)], e.1.served ≤ now) → r.served ≤ now :=
    fun now hall => hall _ (List.mem_append_right _ (List.mem_singleton_self _))
  have hpast := hs.orderly.served
  refine ⟨h.entered.concat hs.orderly reply, hrep, hbooked', hnonneg', ?_, ?_⟩
  · intro now hall x hx
    rw [ledger_concat] at hx
    refine le_trans ?_ (hserved now hall)
    obtain ⟨-, hat, -⟩ | ⟨y, hy, hat, -⟩ := mem_book hmoves hx
    · exact hat.le
    · rw [← hat]
      exact h.admittedAt r.served hpast y hy
  · intro now hall x hx hrecent
    rw [ledger_concat] at hx
    have hnow := hserved now hall
    obtain ⟨hadmitted, hat, hstamp, hmem⟩ | ⟨y, hy, hat, hstamp, hmem⟩ := mem_book hmoves hx
    · refine ⟨hmem, ?_, fun t ht => ?_⟩
      · rw [hat, hstamp]
        exact hs.early
      · rw [DeadlineMoves, if_pos hadmitted, ht] at hdead
        rw [hat, Option.some.inj hdead]
    · have hrecent' : r.served - apiKey.windowSeconds + 2 * d < y.admittedAt := by
        rw [hat]
        linarith
      have hsafe := h.safe r.served hpast y hy hrecent'
      have hin := hsafe.mem_live hd hrecent' hlive
      have hle := h.admittedAt r.served hpast y hy
      refine ⟨hmem hin (hsafe.mem_trim hs hrecent' hin), ?_, fun t ht => ?_⟩
      · obtain hsame | hnew := hstamp
        · rw [← hat, ← hsame]
          exact hsafe.stamp
        · have := hs.early
          rw [← hat, hnew]
          linarith
      · rw [← hat]
        by_cases hadmitted : reply = .admitted
        · rw [DeadlineMoves, if_pos hadmitted, ht] at hdead
          rw [Option.some.inj hdead]
          linarith
        · rw [DeadlineMoves, if_neg hadmitted] at hdead
          exact hsafe.deadline t (hdead t ht)

/-- After an admission the log, and so the shortened window, is within the budget. -/
theorem Guarded.budget_safe (h : Guarded apiKey d (past ++ [(r, .admitted)]) key' log')
    (hs : Skewed d past r) (hmoves : Moves apiKey live r .admitted log') :
    (admittedCosts (past ++ [(r, .admitted)]) apiKey.windowSeconds d r.served).sum ≤
      apiKey.tokenBudget := by
  have hall : ∀ e ∈ past ++ [(r, Reply.admitted)], e.1.served ≤ r.served := fun e he => by
    obtain hold | hlast := List.mem_append.mp he
    · exact hs.orderly.served e hold
    · obtain rfl := List.mem_singleton.mp hlast
      exact le_rfl
  have hlog : (costs log').sum ≤ apiKey.tokenBudget := by
    cases hmoves with
    | @grant served clock id est hfits =>
      have hcosts : costs (trim (clock - apiKey.windowSeconds) live ++ [⟨id, clock, est⟩]) =
          costs (trim (clock - apiKey.windowSeconds) live) ++ [est] := List.map_append
      have hzero : Rounding.deficit
          (est :: costs (trim (clock - apiKey.windowSeconds) live)) = 0 := by
        rw [← Rounding.deficit_perm (List.perm_append_singleton _ _), ← hcosts]
        refine Rounding.deficit_eq_zero fun n hn => ?_
        obtain ⟨c, hc, rfl⟩ := List.mem_map.mp hn
        exact h.nonneg c hc
      have hbudget := apiKey.tokenBudget_le
      have hfit := hfits (by omega)
      rw [hcosts, List.sum_append, List.sum_singleton]
      omega
    | refuse hno => exact absurd rfl hno
  refine (sum_costs_le ?_ ?_ h.nonneg).trans hlog
  · exact h.entered.nodup.sublist ((List.filter_sublist.map _).map _)
  · intro c hc
    obtain ⟨x, hx, rfl⟩ := List.mem_map.mp hc
    obtain ⟨hmem, hrecent⟩ := List.mem_filter.mp hx
    exact (h.safe r.served hall x hmem (of_decide_eq_true hrecent).1).stored

/-- With clocks within `d` of true time and no negative cost, right after an admission at
true time `T` everything admitted in `(T - W + 2 * d, T]` fits under the budget. -/
theorem admitted_budget_safe (apiKey : ApiKey) (d : Time) (hd : 0 ≤ d) (requests : List Request)
    (hskew : (limiter apiKey).Along (fun past _ r => Skewed d past r) requests)
    (hcosts : ∀ r ∈ requests, 0 ≤ r.call.tokens) :
    (limiter apiKey).Along (BudgetSafe apiKey d) requests := by
  refine (limiter apiKey).along_of_invariant
    (fun past _ r => Skewed d past r ∧ 0 ≤ r.call.tokens) (BudgetSafe apiKey d)
    (fun past key => ∃ log, Guarded apiKey d past key log) ?_ ?_ ?_
    fun before r hr => ⟨hskew before r hr, hcosts r ?_⟩
  · exact ⟨[], .nil, .empty, List.Subset.refl _, by simp, by simp, by simp⟩
  · rintro past key r ⟨log, h⟩ ⟨hs, hcost⟩
    obtain ⟨live, log', hlive, hmoves, hrep, hdead⟩ :=
      serve_moves apiKey h.represents fun _ => h.fresh hs
    exact ⟨log', h.concat hd hs hcost hlive hmoves hrep hdead⟩
  · rintro past key r ⟨log, h⟩ ⟨hs, hcost⟩ hadmitted
    obtain ⟨live, log', hlive, hmoves, hrep, hdead⟩ :=
      serve_moves apiKey h.represents fun _ => h.fresh hs
    have hnext := h.concat hd hs hcost hlive hmoves hrep hdead
    rw [hadmitted] at hmoves hnext ⊢
    exact hnext.budget_safe hs hmoves
  · exact hr.subset (List.mem_append_right _ (List.mem_singleton_self _))

/-- Two replicas whose clocks are two seconds apart, one of them ahead. -/
theorem admitted_budget_safe_two_replicas :
    (limiter perMinute).Along (BudgetSafe perMinute 1)
      [⟨10, 9, .reserve idA 60⟩, ⟨30, 31, .reserve idB 20⟩, ⟨40, 39, .reconcile idA 70⟩,
        ⟨75, 76, .reserve idC 10⟩] :=
  admitted_budget_safe perMinute 1 (by decide +kernel) _ (by decide +kernel) (by decide)

/-- A refund of 100 tokens that is stamped at 50 still pays for a reserve at 61, although
the reservation it belongs to was admitted at 0. -/
theorem refund_overspends :
    let requests : List Request := [⟨0, 0, .reserve idA 10⟩, ⟨50, 50, .reconcile idA (-100)⟩,
      ⟨61, 61, .reserve idB 150⟩]
    (limiter perMinute).Along (fun past _ r => Skewed 0 past r) requests ∧
      (∀ r ∈ requests, |r.call.tokens| < 10 ^ 14) ∧
      ¬ (limiter perMinute).Along (BudgetSafe perMinute 0) requests := by
  decide +kernel

end InferenceGateway.Resilience.RateLimit
