import InferenceGateway.Resilience.RateLimitLedger

/-!
# The sliding window

With perfect clocks the stored log should hold every reservation whose latest stamp is
in the window. Trimming respects that. The deadline of the key does not: a reconcile
restamps a charge but leaves the deadline that an earlier reserve set, so a whole key
can go while a restamped charge is still in the window. As long as that does not happen
the window holds at every admission.
-/
namespace InferenceGateway.Resilience.RateLimit
open Library Redis WindowLog

/-- The costs of the reservations whose latest stamp is in the window that ends now. -/
def windowCosts (past : List Event) (window : Int) (now : Time) : List Int :=
  costs ((charges (ledger past)).filter fun c => now - window < c.stamp ∧ c.stamp ≤ now)

/-- If the request is admitted, it fits under the budget with what its window holds. -/
def WithinBudget (apiKey : ApiKey) (past : List Event) (key : SortedSet) (r : Request) : Prop :=
  ∀ id est, r.call = .reserve id est → (serve apiKey key r).1 = .admitted →
    est + (windowCosts past apiKey.windowSeconds r.clock).sum ≤ apiKey.tokenBudget

instance (apiKey : ApiKey) (past : List Event) (key : SortedSet) (r : Request) :
    Decidable (WithinBudget apiKey past key r) :=
  match h : r.call with
  | .reserve id est => decidable_of_iff ((serve apiKey key r).1 = .admitted →
        est + (windowCosts past apiKey.windowSeconds r.clock).sum ≤ apiKey.tokenBudget)
      (by simp [WithinBudget, h])
  | .reconcile _ _ => .isTrue (by simp [WithinBudget, h])

/-- The caller's clock agrees with that of Redis, and a reconcile finds its reservation. -/
structure Perfect (apiKey : ApiKey) (past : List Event) (key : SortedSet) (r : Request) :
    Prop where
  orderly : Orderly past r
  clock : r.clock = r.served
  found : (serve apiKey key r).1 ≠ .missing

instance (apiKey : ApiKey) (past : List Event) (key : SortedSet) (r : Request) :
    Decidable (Perfect apiKey past key r) :=
  decidable_of_iff (Orderly past r ∧ r.clock = r.served ∧ (serve apiKey key r).1 ≠ .missing)
    ⟨fun h => ⟨h.1, h.2.1, h.2.2⟩, fun h => ⟨h.orderly, h.clock, h.found⟩⟩

/-- The key has not expired with a member still in the window, and the negative costs in
the window stay within the exact range of the numbers the script adds. -/
structure Kept (apiKey : ApiKey) (past : List Event) (key : SortedSet) (r : Request) :
    Prop where
  deadline : key.Expired r.served → ∀ m ∈ key.members, m.score ≤ r.clock - apiKey.windowSeconds
  exact : ∀ id est, r.call = .reserve id est →
    Rounding.deficit (est :: windowCosts past apiKey.windowSeconds r.clock) +
      apiKey.tokenBudget < 2 ^ 53

instance (apiKey : ApiKey) (past : List Event) (key : SortedSet) (r : Request) :
    Decidable (Kept apiKey past key r) :=
  match h : r.call with
  | .reserve id est => decidable_of_iff
      ((key.Expired r.served → ∀ m ∈ key.members, m.score ≤ r.clock - apiKey.windowSeconds) ∧
        Rounding.deficit (est :: windowCosts past apiKey.windowSeconds r.clock) +
          apiKey.tokenBudget < 2 ^ 53)
      ⟨fun hk => ⟨hk.1, by simpa [h] using hk.2⟩, fun hk => ⟨hk.deadline, hk.exact id est h⟩⟩
  | .reconcile _ _ => decidable_of_iff
      (key.Expired r.served → ∀ m ∈ key.members, m.score ≤ r.clock - apiKey.windowSeconds)
      ⟨fun hk => ⟨hk, by simp [h]⟩, fun hk => hk.deadline⟩

/-- The stored log covers the window of the ledger at every later time. -/
structure Windowed (apiKey : ApiKey) (past : List Event) (key : SortedSet) (log : Log) :
    Prop where
  entered : Entered past
  represents : Represents key log
  covers : ∀ now, (∀ e ∈ past, e.1.served ≤ now) →
    Covers (now - apiKey.windowSeconds) log (charges (ledger past))
  stamps : ∀ now, (∀ e ∈ past, e.1.served ≤ now) → ∀ c ∈ charges (ledger past), c.stamp ≤ now

variable {apiKey : ApiKey} {past : List Event} {key : SortedSet} {log : Log} {r : Request}

/-- The unexpired part of the log still covers the window that a request looks at. -/
theorem Windowed.live (h : Windowed apiKey past key log) (hp : Perfect apiKey past key r)
    (hk : Kept apiKey past key r) {live : Log}
    (hlive : (¬ key.Expired r.served ∧ live = log) ∨ (key.Expired r.served ∧ live = [])) :
    Covers (r.served - apiKey.windowSeconds) live (charges (ledger past)) := by
  have hcovers := h.covers r.served hp.orderly.served
  obtain ⟨-, rfl⟩ | ⟨hexp, rfl⟩ := hlive
  · exact hcovers
  · refine .nil fun c hc => ?_
    obtain hmem | hgone := hcovers.covered c hc
    · rw [← hp.clock]
      exact hk.deadline hexp (stored c) (h.represents.mem_iff.mpr ⟨c, hmem, rfl⟩)
    · exact hgone

/-- One move keeps the log in step with the ledger, and stamps only with its clock. -/
theorem Moves.covers {live log' : Log} {reply : Reply} (hmoves : Moves apiKey live r reply log')
    (hclock : r.clock = r.served) (hreply : reply ≠ .missing)
    (hcovers : Covers (r.served - apiKey.windowSeconds) live (charges (ledger past)))
    (hstamps : ∀ c ∈ charges (ledger past), c.stamp ≤ r.served) :
    Covers (r.served - apiKey.windowSeconds) log' (charges (ledger (past ++ [(r, reply)]))) ∧
    ∀ c ∈ charges (ledger (past ++ [(r, reply)])), c.stamp ≤ r.served := by
  rw [ledger_concat]
  cases hmoves with
  | @grant served clock id est hfits =>
    obtain rfl : clock = served := hclock
    rw [book_admitted, charges_append]
    refine ⟨hcovers.trim.append _, fun c hc => ?_⟩
    obtain hold | hnew := List.mem_append.mp hc
    · exact hstamps c hold
    · obtain rfl := List.mem_singleton.mp hnew
      exact le_rfl
  | @refuse served clock id est _ hno =>
    obtain rfl : clock = served := hclock
    rw [book_refused _ _ _ _ _ hno]
    exact ⟨hcovers.trim, hstamps⟩
  | @settle served clock id actual hid =>
    obtain rfl : clock = served := hclock
    rw [book_reconcile, charges_reconciled]
    refine ⟨hcovers.settle hid _ _, fun c hc => ?_⟩
    obtain ⟨hold, -⟩ | ⟨rfl, -⟩ := mem_settle.mp hc
    · exact hstamps c hold
    · exact le_rfl
  | miss => exact absurd rfl hreply

theorem Windowed.fresh (h : Windowed apiKey past key log) (hp : Perfect apiKey past key r)
    {id : ReservationId} (hid : r.drawn = some id) : id ∉ ids log := fun hmem => by
  obtain ⟨c, hc, rfl⟩ := mem_ids.mp hmem
  have hbooked := (h.covers r.served hp.orderly.served).sub c hc
  exact h.entered.not_mem hp.orderly hid (mem_ids.mpr ⟨c, hbooked, rfl⟩)

theorem Windowed.step (h : Windowed apiKey past key log) (hp : Perfect apiKey past key r)
    (hk : Kept apiKey past key r) :
    ∃ log',
      Windowed apiKey (past ++ [(r, (serve apiKey key r).1)]) (serve apiKey key r).2 log' := by
  obtain ⟨live, log', hlive, hmoves, hrep, -⟩ :=
    serve_moves apiKey h.represents fun _ => h.fresh hp
  obtain ⟨hcovers, hstamps⟩ := hmoves.covers hp.clock hp.found (h.live hp hk hlive)
    (h.stamps r.served hp.orderly.served)
  have hnow : ∀ now, (∀ e ∈ past ++ [(r, (serve apiKey key r).1)], e.1.served ≤ now) →
      r.served ≤ now := fun now hall =>
    hall _ (List.mem_append_right _ (List.mem_singleton_self _))
  exact ⟨log', h.entered.concat hp.orderly _, hrep,
    fun now hall => hcovers.mono (sub_le_sub_right (hnow now hall) _),
    fun now hall c hc => (hstamps c hc).trans (hnow now hall)⟩

/-- With all stamps in the past, the window is what trimming leaves of the ledger. -/
theorem windowCosts_eq {window : Int} {now : Time}
    (h : ∀ c ∈ charges (ledger past), c.stamp ≤ now) :
    windowCosts past window now = costs (trim (now - window) (charges (ledger past))) := by
  rw [windowCosts, trim]
  refine congrArg costs (List.filter_congr fun c hc => ?_)
  simp [h c hc]

/-- What the script admits fits under the budget together with the ledger's window. -/
theorem Windowed.within_budget (h : Windowed apiKey past key log)
    (hp : Perfect apiKey past key r) (hk : Kept apiKey past key r) :
    WithinBudget apiKey past key r := by
  intro id est hcall hadmitted
  obtain ⟨live, log', hlive, hmoves, -, -⟩ :=
    serve_moves apiKey h.represents fun _ => h.fresh hp
  have hnodup : (ids live).Nodup := by
    obtain ⟨-, rfl⟩ | ⟨-, rfl⟩ := hlive
    · exact h.represents.nodup
    · exact List.nodup_nil
  have hperm : (costs (trim (r.clock - apiKey.windowSeconds) live)).Perm
      (windowCosts past apiKey.windowSeconds r.clock) := by
    rw [hp.clock, windowCosts_eq (h.stamps r.served hp.orderly.served)]
    exact (h.live hp hk hlive).costs_trim_perm hnodup h.entered.nodup
  rw [hadmitted] at hmoves
  have hfits := hmoves.fits hcall
  rw [Fits, Rounding.deficit_perm (hperm.cons est), hperm.sum_eq] at hfits
  exact hfits (hk.exact id est hcall)

/-- In a run with perfect clocks whose reconciles find their reservations, every admitted
reserve fits under the budget with all charges stamped in its window, as long as the key
never expires with such a charge in it. -/
theorem admitted_within_window (apiKey : ApiKey) (requests : List Request)
    (hperfect : (limiter apiKey).Along (Perfect apiKey) requests)
    (hkept : (limiter apiKey).Along (Kept apiKey) requests) :
    (limiter apiKey).Along (WithinBudget apiKey) requests := by
  refine (limiter apiKey).along_of_invariant
    (fun past key r => Perfect apiKey past key r ∧ Kept apiKey past key r) (WithinBudget apiKey)
    (fun past key => ∃ log, Windowed apiKey past key log) ?_ ?_ ?_
    fun before r hr => ⟨hperfect before r hr, hkept before r hr⟩
  · exact ⟨[], .nil, .empty, fun _ _ => .nil (by simp), by simp⟩
  · rintro past key r ⟨log, h⟩ ⟨hp, hk⟩
    exact h.step hp hk
  · rintro past key r ⟨log, h⟩ ⟨hp, hk⟩
    exact h.within_budget hp hk

/-- A run in which the key is renewed by each reserve before it expires. -/
theorem admitted_within_window_renewed :
    (limiter perMinute).Along (WithinBudget perMinute)
      [⟨0, 0, .reserve idA 10⟩, ⟨40, 40, .reconcile idA 70⟩, ⟨50, 50, .reserve idB 30⟩,
        ⟨101, 101, .reserve idC 70⟩] :=
  admitted_within_window _ _ (by decide +kernel) (by decide +kernel)

/-- Two reserves set the deadline to 61; the first is reconciled at 50 to 90 of the 100
tokens. At 62 the key is gone and the full budget is granted on top of them. -/
theorem expired_key_overspends :
    let requests : List Request := [⟨0, 0, .reserve idA 10⟩, ⟨1, 1, .reserve idB 10⟩,
      ⟨50, 50, .reconcile idA 90⟩, ⟨62, 62, .reserve idC 100⟩]
    (limiter perMinute).Along (Perfect perMinute) requests ∧
      ¬ (limiter perMinute).Along (WithinBudget perMinute) requests := by
  decide +kernel

end InferenceGateway.Resilience.RateLimit
