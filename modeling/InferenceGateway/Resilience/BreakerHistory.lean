import InferenceGateway.Resilience.Breaker
import Mathlib.Tactic.NormNum

/-!
# The breaker hash as a function of the history

The three fields of the hash are written by different branches and go stale
independently. `Tracks` says what each of them means in terms of the calls served
so far; it survives every call, in any order and with any clock readings, so the
whole behaviour of a breaker can be read off its history.
-/
namespace InferenceGateway.Resilience.Breaker
open Library

abbrev Event := Call × Reply

def Event.isSuccess : Event → Bool
  | (.record true _, _) => true
  | _ => false

def Event.isFailure : Event → Bool
  | (.record false _, _) => true
  | _ => false

/-- An `allow` that answered `True`. -/
def Event.isAdmission : Event → Bool
  | (.allow _, .allowed true) => true
  | _ => false

/-- The number of failure records since the last success record. -/
def failuresSinceSuccess (past : List Event) : Nat :=
  (past.reverse.takeWhile (!·.isSuccess)).countP Event.isFailure

/-- The clock reading of the last failure record. -/
def lastFailure (past : List Event) : Option Time :=
  past.reverse.findSome? fun
    | (.record false now, _) => some now
    | _ => none

/-- Some `allow` has answered `True` since the last failure record. -/
def admittedSinceFailure (past : List Event) : Bool :=
  (past.reverse.takeWhile (!·.isFailure)).any Event.isAdmission

section Append
variable (past : List Event) (now : Time) (r : Reply)

@[simp] theorem failuresSinceSuccess_allow :
    failuresSinceSuccess (past ++ [(.allow now, r)]) = failuresSinceSuccess past := by
  simp [failuresSinceSuccess, Event.isSuccess, Event.isFailure]

@[simp] theorem failuresSinceSuccess_ok :
    failuresSinceSuccess (past ++ [(.record true now, r)]) = 0 := by
  simp [failuresSinceSuccess, Event.isSuccess]

@[simp] theorem failuresSinceSuccess_fail :
    failuresSinceSuccess (past ++ [(.record false now, r)]) =
      failuresSinceSuccess past + 1 := by
  simp [failuresSinceSuccess, Event.isSuccess, Event.isFailure, List.countP_cons]

@[simp] theorem lastFailure_allow :
    lastFailure (past ++ [(.allow now, r)]) = lastFailure past := by
  simp [lastFailure]

@[simp] theorem lastFailure_ok :
    lastFailure (past ++ [(.record true now, r)]) = lastFailure past := by
  simp [lastFailure]

@[simp] theorem lastFailure_fail :
    lastFailure (past ++ [(.record false now, r)]) = some now := by
  simp [lastFailure]

@[simp] theorem admittedSinceFailure_allow :
    admittedSinceFailure (past ++ [(.allow now, r)]) =
      (Event.isAdmission (.allow now, r) || admittedSinceFailure past) := by
  simp [admittedSinceFailure, Event.isFailure]

@[simp] theorem admittedSinceFailure_fail :
    admittedSinceFailure (past ++ [(.record false now, r)]) = false := by
  simp [admittedSinceFailure, Event.isFailure]

end Append

/-- The circuit is not closed: the backend has been taken out of service. -/
def BreakerHash.Tripped (key : BreakerHash) : Prop :=
  key.state = some .opened ∨ key.state = some .halfOpen

/-- What the fields of the hash say about the history. The clock and the probe are
only meaningful while the failure count has reached the threshold. -/
structure Tracks (cb : CircuitBreaker) (past : List Event) (key : BreakerHash) : Prop where
  failures : key.failures.getD 0 = failuresSinceSuccess past
  tripped : key.Tripped ↔ cb.failureThreshold ≤ failuresSinceSuccess past
  openedAt : cb.failureThreshold ≤ failuresSinceSuccess past →
    ∃ t, key.openedAt = some t ∧ lastFailure past = some t
  probing : cb.failureThreshold ≤ failuresSinceSuccess past →
    (key.state = some .halfOpen ↔ admittedSinceFailure past = true)

namespace Tracks

variable {cb : CircuitBreaker} {past : List Event} {key : BreakerHash} {now : Time}

theorem absent (hpos : 1 ≤ cb.failureThreshold) : Tracks cb [] .absent := by
  have hlt : ¬ cb.failureThreshold ≤ 0 := by omega
  constructor <;> simp [BreakerHash.absent, BreakerHash.Tripped, failuresSinceSuccess, hlt]

/-- While tripped, an allow is refused exactly until the cooldown after the last
failure has passed or another allow has been granted. -/
theorem allow_eq (h : Tracks cb past key) (now : Time) :
    (cb.failureThreshold ≤ failuresSinceSuccess past ∧ admittedSinceFailure past = false ∧
      ∃ t, lastFailure past = some t ∧ now - t < cb.cooldownSeconds ∧
        cb.serve key (.allow now) = (.allowed false, key)) ∨
    (cb.failureThreshold ≤ failuresSinceSuccess past ∧ admittedSinceFailure past = false ∧
      ∃ t, lastFailure past = some t ∧ ¬ now - t < cb.cooldownSeconds ∧
        cb.serve key (.allow now) = (.allowed true, { key with state := some .halfOpen })) ∨
    (¬ (cb.failureThreshold ≤ failuresSinceSuccess past ∧ admittedSinceFailure past = false) ∧
      cb.serve key (.allow now) = (.allowed true, key)) := by
  by_cases hopen : key.state = some .opened
  · have hthr := h.tripped.mp (.inl hopen)
    have hnone : admittedSinceFailure past = false := by
      simpa [hopen] using h.probing hthr
    obtain ⟨t, ht, hlast⟩ := h.openedAt hthr
    rw [serve_allow_of_opened hopen ht]
    by_cases hcool : (cb.cooldownSeconds : Time) ≤ now - t
    · exact .inr (.inl ⟨hthr, hnone, t, hlast, not_lt.mpr hcool, if_pos hcool⟩)
    · exact .inl ⟨hthr, hnone, t, hlast, not_le.mp hcool, if_neg hcool⟩
  · refine .inr (.inr ⟨?_, serve_allow_of_ne_opened ?_⟩)
    · rintro ⟨hthr, hnone⟩
      rcases h.tripped.mpr hthr with hstate | hstate
      · exact hopen hstate
      · simp [(h.probing hthr).mp hstate] at hnone
    · rw [BreakerHash.circuit]
      cases hstate : key.state with
      | none => simp
      | some state => simpa [hstate] using hopen

theorem serve_allow (h : Tracks cb past key) (now : Time) :
    Tracks cb (past ++ [(.allow now, (cb.serve key (.allow now)).1)])
      (cb.serve key (.allow now)).2 := by
  rcases h.allow_eq now with ⟨hthr, hnone, t, ht, -, hs⟩ | ⟨hthr, hnone, t, ht, -, hs⟩ | ⟨hno, hs⟩
  · rw [hs]
    exact ⟨by simpa using h.failures, by simpa using h.tripped, by simpa using h.openedAt,
      by simpa [Event.isAdmission] using h.probing⟩
  · rw [hs]
    refine ⟨by simpa using h.failures, ?_, by simpa using h.openedAt, ?_⟩
    · simpa [BreakerHash.Tripped] using hthr
    · simp [Event.isAdmission]
  · rw [hs]
    refine ⟨by simpa using h.failures, by simpa using h.tripped, by simpa using h.openedAt, ?_⟩
    intro hthr
    have hadm : admittedSinceFailure past = true := by
      simpa using fun hf => hno ⟨by simpa using hthr, hf⟩
    simpa [Event.isAdmission, hadm] using (h.probing (by simpa using hthr)).mpr hadm

theorem serve_ok (hpos : 1 ≤ cb.failureThreshold) (now : Time) (r : Reply) :
    Tracks cb (past ++ [(.record true now, r)]) (cb.serve key (.record true now)).2 := by
  have hlt : ¬ cb.failureThreshold ≤ 0 := by omega
  rw [serve_record_ok]
  constructor <;> simp [BreakerHash.Tripped, hlt]

theorem serve_fail (h : Tracks cb past key) (now : Time) (r : Reply) :
    Tracks cb (past ++ [(.record false now, r)]) (cb.serve key (.record false now)).2 := by
  rw [serve_record_fail, h.failures]
  -- A half-open circuit has already reached the threshold, so both disjuncts of the
  -- script's test mean the same thing.
  have htest : (key.circuit = .halfOpen ∨
      cb.failureThreshold ≤ (failuresSinceSuccess past + 1 : Nat)) ↔
      cb.failureThreshold ≤ (failuresSinceSuccess past + 1 : Nat) := by
    refine or_iff_right_of_imp fun hhalf => ?_
    have hstate : key.state = some .halfOpen := by
      cases hstate : key.state <;> simp_all [BreakerHash.circuit]
    have := h.tripped.mp (.inr hstate)
    omega
  by_cases hthr : cb.failureThreshold ≤ (failuresSinceSuccess past + 1 : Nat)
  · rw [if_pos (htest.mpr hthr)]
    constructor <;> simp_all [BreakerHash.Tripped]
  · rw [if_neg (htest.not.mpr hthr)]
    have hbelow : ¬ cb.failureThreshold ≤ failuresSinceSuccess past := by omega
    refine ⟨by simp, ?_, ?_, ?_⟩
    · rw [failuresSinceSuccess_fail]
      exact iff_of_false (fun ht => hbelow (h.tripped.mp ht)) hthr
    all_goals
      intro hle
      rw [failuresSinceSuccess_fail] at hle
      exact absurd hle hthr

end Tracks

/-- The invariant holds after every sequence of calls. -/
theorem service_tracks (cb : CircuitBreaker) (hpos : 1 ≤ cb.failureThreshold)
    (calls : List Call) : Tracks cb (cb.service.history calls) (cb.service.state calls) := by
  refine cb.service.invariant (Tracks cb) (Tracks.absent hpos) ?_ calls
  intro past key c h
  cases c with
  | allow now => exact h.serve_allow now
  | record ok now =>
    cases ok with
    | true => exact Tracks.serve_ok hpos now _
    | false => exact h.serve_fail now _

/-- The whole state of a breaker and its next answer are determined by the history:
the stored count is the number of failures since the last success, the circuit is
tripped exactly when it has reached the threshold, and an allow is refused exactly
while it is tripped, no allow has been granted since the last failure and the cooldown
after that failure has not passed. No call makes a script fail. -/
theorem history_characterises (cb : CircuitBreaker) (hpos : 1 ≤ cb.failureThreshold)
    (calls : List Call) :
    let past := cb.service.history calls
    let key := cb.service.state calls
    key.failures.getD 0 = failuresSinceSuccess past ∧
    (key.state = some .opened ∨ key.state = some .halfOpen ↔
      cb.failureThreshold ≤ failuresSinceSuccess past) ∧
    ∀ now : Time,
      ((cb.serve key (.allow now)).1 = .allowed true ∨
        (cb.serve key (.allow now)).1 = .allowed false) ∧
      ((cb.serve key (.allow now)).1 = .allowed false ↔
        cb.failureThreshold ≤ failuresSinceSuccess past ∧
        admittedSinceFailure past = false ∧
        ∃ t, lastFailure past = some t ∧ now - t < cb.cooldownSeconds) := by
  intro past key
  have h : Tracks cb past key := service_tracks cb hpos calls
  refine ⟨h.failures, h.tripped, fun now => ?_⟩
  rcases h.allow_eq now with
    ⟨hthr, hnone, t, ht, hlt, hs⟩ | ⟨hthr, hnone, t, ht, hge, hs⟩ | ⟨hno, hs⟩
  · rw [hs]
    exact ⟨.inr rfl, iff_of_true rfl ⟨hthr, hnone, t, ht, hlt⟩⟩
  · rw [hs]
    refine ⟨.inl rfl, iff_of_false (by simp) ?_⟩
    rintro ⟨-, -, t', ht', hlt⟩
    obtain rfl : t = t' := Option.some.inj (ht.symm.trans ht')
    exact hge hlt
  · rw [hs]
    exact ⟨.inl rfl, iff_of_false (by simp) fun ⟨hthr, hnone, _⟩ => hno ⟨hthr, hnone⟩⟩

/-- Three failures against a threshold of three. -/
theorem history_characterises_three :
    let cb : CircuitBreaker := ⟨3, 30⟩
    let calls := [Call.record false 0, .record false 1, .record false 2]
    (cb.service.state calls).failures.getD 0 = 3 ∧
    (cb.serve (cb.service.state calls) (.allow 31)).1 = .allowed false := by
  have h := history_characterises ⟨3, 30⟩ (by decide)
    [.record false 0, .record false 1, .record false 2]
  refine ⟨h.1, (h.2.2 31).2.mpr ⟨by decide, by decide, 2, by decide, by norm_num⟩⟩

end InferenceGateway.Resilience.Breaker
