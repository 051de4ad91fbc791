import InferenceGateway.Resilience.BreakerHistory

/-!
# The breaker as a state machine

The documented machine runs closed, open, half-open and back to closed. Its moves are
compared with those of the scripts in every state the scripts can reach, for calls
that arrive in any order: a request admitted before the breaker opened may record its
outcome at any later time.
-/
namespace InferenceGateway.Resilience.Breaker
open Library

/-- The moves of the documented machine. -/
def documented : CircuitState → CircuitState → Bool
  | .closed, .closed | .closed, .opened => true
  | .opened, .opened | .opened, .halfOpen => true
  | .halfOpen, .halfOpen | .halfOpen, .closed | .halfOpen, .opened => true
  | _, _ => false

theorem BreakerHash.circuit_eq_opened {key : BreakerHash} :
    key.circuit = .opened ↔ key.state = some .opened := by
  cases h : key.state <;> simp [BreakerHash.circuit, h]

/-- An open circuit remembers when it opened. -/
def BreakerHash.Stamped (key : BreakerHash) : Prop :=
  key.state = some .opened → ∃ t, key.openedAt = some t

theorem service_stamped (cb : CircuitBreaker) (calls : List Call) :
    (cb.service.state calls).Stamped := by
  refine cb.service.invariant (fun _ key => key.Stamped) ?_ ?_ calls
  · simp [CircuitBreaker.service, BreakerHash.Stamped, BreakerHash.absent]
  · intro _ key c h
    change (cb.serve key c).2.Stamped
    cases c with
    | allow now =>
      by_cases hopen : key.state = some .opened
      · obtain ⟨t, ht⟩ := h hopen
        rw [serve_allow_of_opened hopen ht]
        split
        · simp [BreakerHash.Stamped]
        · exact h
      · rw [serve_allow_of_ne_opened (BreakerHash.circuit_eq_opened.not.mpr hopen)]
        exact h
    | record ok now =>
      cases ok with
      | true => simp [serve_record_ok, BreakerHash.Stamped]
      | false =>
        rw [serve_record_fail]
        split
        · simp [BreakerHash.Stamped]
        · exact h

/-! ## Where each call leads -/

section Moves
variable (cb : CircuitBreaker) (key : BreakerHash) (now : Time)

/-- An allow either leaves the circuit alone or, once the cooldown has passed, takes an
open circuit to half-open. -/
theorem circuit_allow {key : BreakerHash} (h : key.Stamped) :
    (cb.serve key (.allow now)).2.circuit = key.circuit ∨
    (key.circuit = .opened ∧ (cb.serve key (.allow now)).2.circuit = .halfOpen ∧
      ∃ t, key.openedAt = some t ∧ (cb.cooldownSeconds : Time) ≤ now - t) := by
  by_cases hopen : key.circuit = .opened
  · have hstate := BreakerHash.circuit_eq_opened.mp hopen
    obtain ⟨t, ht⟩ := h hstate
    rw [serve_allow_of_opened hstate ht]
    split
    · rename_i hcool
      exact .inr ⟨hopen, rfl, t, ht, hcool⟩
    · exact .inl rfl
  · rw [serve_allow_of_ne_opened hopen]
    exact .inl rfl

theorem circuit_ok : (cb.serve key (.record true now)).2.circuit = .closed := rfl

/-- A failure record opens the circuit or leaves it as it was; it never leaves it half-open. -/
theorem circuit_fail :
    (cb.serve key (.record false now)).2.circuit = .opened ∨
    ((cb.serve key (.record false now)).2.circuit = key.circuit ∧ key.circuit ≠ .halfOpen) := by
  rw [serve_record_fail]
  split
  · exact .inl rfl
  · rename_i hno
    exact .inr ⟨rfl, fun hhalf => hno (.inl hhalf)⟩

end Moves

/-- What is asked of one move: it is a move of the documented machine, and an open
circuit is left only by an allow made at least the cooldown after it opened. -/
def Documented (cb : CircuitBreaker) (key : BreakerHash) (c : Call) : Prop :=
  let next := (cb.serve key c).2
  documented key.circuit next.circuit = true ∧
  (key.circuit = .opened → next.circuit ≠ .opened →
    ∃ now t, c = .allow now ∧ key.openedAt = some t ∧ (cb.cooldownSeconds : Time) ≤ now - t)

/-- In every reachable state a call moves the circuit as documented, except a success
record that reaches an open breaker. -/
theorem move_documented_iff (cb : CircuitBreaker) (calls : List Call) (c : Call) :
    Documented cb (cb.service.state calls) c ↔
      ¬ ((cb.service.state calls).circuit = .opened ∧ ∃ now, c = .record true now) := by
  have hstamped := service_stamped cb calls
  generalize cb.service.state calls = key at hstamped ⊢
  unfold Documented
  cases c with
  | allow now =>
    refine iff_of_true ?_ (by simp)
    rcases circuit_allow cb now hstamped with hsame | ⟨hopen, hhalf, t, ht, hcool⟩
    · exact ⟨by rw [hsame]; cases key.circuit <;> rfl,
        fun hopen hne => absurd (hsame.trans hopen) hne⟩
    · exact ⟨by rw [hopen, hhalf]; rfl, fun _ _ => ⟨now, t, rfl, ht, hcool⟩⟩
  | record ok now =>
    cases ok with
    | true =>
      by_cases hopen : key.circuit = .opened
      · refine iff_of_false ?_ (by simp [hopen])
        rintro ⟨hmove, -⟩
        rw [circuit_ok, hopen] at hmove
        exact absurd hmove (by decide)
      · refine iff_of_true ⟨?_, fun h => absurd h hopen⟩ (by simp [hopen])
        rw [circuit_ok]
        cases hc : key.circuit with
        | opened => exact absurd hc hopen
        | closed | halfOpen => rfl
    | false =>
      refine iff_of_true ?_ (by simp)
      rcases circuit_fail cb key now with hopen | ⟨hsame, hne⟩
      · exact ⟨by rw [hopen]; cases key.circuit <;> rfl, fun _ hleft => absurd hopen hleft⟩
      · exact ⟨by rw [hsame]; cases key.circuit <;> rfl,
          fun hopen hleft => absurd (hsame.trans hopen) hleft⟩

/-- All moves of a run are documented exactly when no success record of the run reaches an
open breaker. -/
theorem run_documented_iff (cb : CircuitBreaker) (calls : List Call) :
    cb.service.Along (fun _ key c => Documented cb key c) calls ↔
      cb.service.Along (fun _ key c => ¬ (key.circuit = .opened ∧ ∃ now, c = .record true now))
        calls := by
  constructor
  · intro h before c hc
    exact (move_documented_iff cb before c).mp (h before c hc)
  · intro h before c hc
    exact (move_documented_iff cb before c).mpr (h before c hc)

/-- One failure opens the breaker of a backend at time 0; a call that was admitted
before succeeds and its record takes the breaker straight back to closed. -/
theorem late_success_closes_open :
    let cb : CircuitBreaker := ⟨1, 30⟩
    let key := cb.service.state [.allow 0, .allow 0, .record false 0]
    key.circuit = .opened ∧ (cb.serve key (.record true 1)).2.circuit = .closed ∧
      ¬ Documented cb key (.record true 1) := by
  refine ⟨by decide, by decide, ?_⟩
  rintro ⟨h, -⟩
  exact absurd h (by decide)

/-! ## The half-open probe -/

/-- The verdicts of a run of allows with no record among them. -/
def verdicts (cb : CircuitBreaker) (key : BreakerHash) : List Time → List Reply
  | [] => []
  | now :: rest =>
    (cb.serve key (.allow now)).1 :: verdicts cb (cb.serve key (.allow now)).2 rest

/-- A half-open breaker grants every allow until the next record. -/
theorem verdicts_halfOpen {key : BreakerHash} (h : key.circuit = .halfOpen) (times : List Time) :
    verdicts cb key times = List.replicate times.length (.allowed true) := by
  induction times with
  | nil => rfl
  | cons now rest ih =>
    have hserve : cb.serve key (.allow now) = (.allowed true, key) :=
      serve_allow_of_ne_opened (by simp [h])
    simp only [verdicts, hserve, ih, List.length_cons, List.replicate_succ]

/-- After the allow that moves a breaker from open to half-open, no further allow is
granted before the next record exactly when no further allow is made. -/
theorem single_probe_iff (cb : CircuitBreaker) (calls : List Call) (probe : Time)
    (others : List Time)
    (hmove : (cb.service.state calls).circuit = .opened ∧
      (cb.service.state (calls ++ [.allow probe])).circuit = .halfOpen) :
    (∀ r ∈ verdicts cb (cb.service.state (calls ++ [.allow probe])) others, r ≠ .allowed true) ↔
      others = [] := by
  rw [verdicts_halfOpen hmove.2]
  cases others <;> simp

/-- A breaker with threshold 1 and cooldown 30 opens at 0 and admits its probe at 30. Nothing
else is granted if nobody else asks, but to two that do something is. -/
theorem single_probe_iff_at_cooldown :
    let cb : CircuitBreaker := ⟨1, 30⟩
    let probed := cb.service.state [.record false 0, .allow 30]
    (∀ r ∈ verdicts cb probed [], r ≠ .allowed true) ∧
      ¬ ∀ r ∈ verdicts cb probed [31, 32], r ≠ .allowed true := by
  intro cb probed
  have hmove : (cb.service.state [.record false 0]).circuit = .opened ∧
      probed.circuit = .halfOpen := ⟨by decide, by decide +kernel⟩
  refine ⟨(single_probe_iff cb [.record false 0] 30 [] hmove).mpr rfl, fun hnone => ?_⟩
  exact List.cons_ne_nil _ _ ((single_probe_iff cb [.record false 0] 30 [31, 32] hmove).mp hnone)

/-- A second request asks one second after the probe was admitted and is admitted too. -/
theorem second_probe_admitted :
    let cb : CircuitBreaker := ⟨1, 30⟩
    let before := cb.service.state [.record false 0]
    let after := cb.service.state [.record false 0, .allow 30]
    before.circuit = .opened ∧ (cb.serve before (.allow 30)).1 = .allowed true ∧
      after.circuit = .halfOpen ∧ (cb.serve after (.allow 31)).1 = .allowed true := by
  decide +kernel

end InferenceGateway.Resilience.Breaker
