import InferenceGateway.Library.Service
import InferenceGateway.Domain

/-!
# Circuit breaker

One Redis hash per backend, read and written by two Lua scripts. `allowScript` and
`recordScript` follow `_ALLOW_SCRIPT` and `_RECORD_SCRIPT` line by line; a script runs
atomically, so a breaker shared by any number of requests and gateway replicas is the
service that executes the scripts in the order in which Redis received them. Clock
readings are the callers' own and arrive in any order.
-/
namespace InferenceGateway.Resilience.Breaker
open Library

/-- The values of the hash field `state`. -/
inductive CircuitState where
  | closed | opened | halfOpen
  deriving DecidableEq, Repr

/-- The text stored in Redis and returned by `record`. -/
def CircuitState.text : CircuitState → String
  | .closed => "closed"
  | .opened => "open"
  | .halfOpen => "half_open"

/-- `breaker:{backend_id}`; a field that was never set is absent. -/
structure BreakerHash where
  state : Option CircuitState
  failures : Option Nat
  openedAt : Option Time
  deriving DecidableEq, Repr

/-- The hash of a key that does not exist. -/
def BreakerHash.absent : BreakerHash := ⟨none, none, none⟩

/-- A missing `state` field counts as closed in both scripts. -/
def BreakerHash.circuit (key : BreakerHash) : CircuitState := key.state.getD .closed

/-- `_ALLOW_SCRIPT`. The reply `none` is the Lua error raised by `now - opened_at` when
`opened_at` is missing; nothing has been written at that point. -/
def allowScript (key : BreakerHash) (now cooldown : Time) : Option Bool × BreakerHash :=
  match key.state with
  | none => (some true, key)
  | some .closed => (some true, key)
  | some .opened =>
    match key.openedAt with
    | none => (none, key)
    | some openedAt =>
      if cooldown ≤ now - openedAt then (some true, { key with state := some .halfOpen })
      else (some false, key)
  | some .halfOpen => (some true, key)

/-- `_RECORD_SCRIPT`. The reply reads the field `state` back after the write; it is
`none` when the field still does not exist. -/
def recordScript (key : BreakerHash) (ok : Bool) (now : Time) (threshold : Int) :
    Option CircuitState × BreakerHash :=
  let state := key.circuit
  let key' :=
    if ok then { key with state := some .closed, failures := some 0 }
    else
      let failures := key.failures.getD 0 + 1
      if state = .halfOpen ∨ threshold ≤ failures then
        { key with state := some .opened, openedAt := some now, failures := some failures }
      else { key with failures := some failures }
  (key'.state, key')

/-- The settings every replica passes to the scripts. -/
structure CircuitBreaker where
  failureThreshold : Int
  cooldownSeconds : Int

/-- A call of `CircuitBreaker.allow` or `CircuitBreaker.record`, with the caller's clock. -/
inductive Call where
  | allow (now : Time)
  | record (ok : Bool) (now : Time)
  deriving DecidableEq, Repr

/-- What the caller gets back: a verdict, a state text, or the script's error. -/
inductive Reply where
  | allowed (verdict : Bool)
  | recorded (state : Option String)
  | raised
  deriving DecidableEq, Repr

namespace CircuitBreaker

variable (cb : CircuitBreaker)

def allow (key : BreakerHash) (now : Time) : Reply × BreakerHash :=
  match allowScript key now cb.cooldownSeconds with
  | (some verdict, key') => (.allowed verdict, key')
  | (none, key') => (.raised, key')

def record (key : BreakerHash) (ok : Bool) (now : Time) : Reply × BreakerHash :=
  let (state, key') := recordScript key ok now cb.failureThreshold
  (.recorded (state.map CircuitState.text), key')

def serve (key : BreakerHash) : Call → Reply × BreakerHash
  | .allow now => cb.allow key now
  | .record ok now => cb.record key ok now

/-- One backend's breaker, from a key that does not exist. -/
def service : Service BreakerHash Call Reply := ⟨.absent, cb.serve⟩

end CircuitBreaker

/-! ## What one call does -/

variable {cb : CircuitBreaker} {key : BreakerHash} {now : Time}

theorem serve_record_ok :
    (cb.serve key (.record true now)).2 =
      { key with state := some .closed, failures := some 0 } := rfl

theorem serve_record_fail :
    (cb.serve key (.record false now)).2 =
      if key.circuit = .halfOpen ∨ cb.failureThreshold ≤ (key.failures.getD 0 + 1 : Nat) then
        ⟨some .opened, some (key.failures.getD 0 + 1), some now⟩
      else { key with failures := some (key.failures.getD 0 + 1) } := by
  simp only [CircuitBreaker.serve, CircuitBreaker.record, recordScript, Bool.false_eq_true,
    if_false]

/-- Outside `opened`, an allow is granted and writes nothing. -/
theorem serve_allow_of_ne_opened (h : key.circuit ≠ .opened) :
    cb.serve key (.allow now) = (.allowed true, key) := by
  obtain ⟨state, failures, openedAt⟩ := key
  match state with
  | none | some .closed | some .halfOpen => rfl
  | some .opened => exact absurd rfl h

/-- In `opened`, an allow is granted exactly when the cooldown has passed, and then it
moves the circuit to half-open. -/
theorem serve_allow_of_opened {openedAt : Time} (hs : key.state = some .opened)
    (ho : key.openedAt = some openedAt) :
    cb.serve key (.allow now) =
      if (cb.cooldownSeconds : Time) ≤ now - openedAt then
        (.allowed true, { key with state := some .halfOpen })
      else (.allowed false, key) := by
  by_cases h : (cb.cooldownSeconds : Time) ≤ now - openedAt <;>
    simp [CircuitBreaker.serve, CircuitBreaker.allow, allowScript, hs, ho, h]

end InferenceGateway.Resilience.Breaker
