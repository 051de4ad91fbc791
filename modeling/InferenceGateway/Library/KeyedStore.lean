import InferenceGateway.Library.Service
import Mathlib.Logic.Function.Basic

/-!
# Services that share a store

Many small services keep their states in one store, each under a key of its own and as a
value of its own data type. A call that finds a value of another type is refused. If no two
services have the same key, each of them answers as if it were alone: no call is refused, and
its state and its replies are those of the service itself on its own calls.
-/
namespace InferenceGateway.Library

variable {Key Value Part : Type} {State Call Reply : Part → Type}

/-- Where and how the states of a family of services are stored. A service starts without a
value under its key. -/
structure Layout (Key Value : Type) (S : (p : Part) → Service (State p) (Call p) (Reply p)) where
  key : Part → Key
  key_injective : Function.Injective key
  store : (p : Part) → State p → Option Value
  fetch : (p : Part) → Option Value → Option (State p)
  fetch_store : ∀ p s, fetch p (store p s) = some s
  store_initial : ∀ p, store p (S p).initial = none

namespace Layout

variable {S : (p : Part) → Service (State p) (Call p) (Reply p)} [DecidableEq Key]
  (L : Layout Key Value S)

/-- One service works on the value under its key, unless that is of another type. -/
def serve (db : Key → Option Value) (c : (p : Part) × Call p) :
    Option ((p : Part) × Reply p) × (Key → Option Value) :=
  match L.fetch c.1 (db (L.key c.1)) with
  | none => (none, db)
  | some s =>
    (some ⟨c.1, ((S c.1).serve s c.2).1⟩,
      Function.update db (L.key c.1) (L.store c.1 ((S c.1).serve s c.2).2))

/-- All services on one store, from an empty one. -/
def shared : Service (Key → Option Value) ((p : Part) × Call p) (Option ((p : Part) × Reply p)) :=
  ⟨fun _ => none, L.serve⟩

variable {L} in
/-- A call of a service whose state is stored. -/
theorem serve_of_stored {db : Key → Option Value} {p : Part} {s : State p}
    (h : db (L.key p) = L.store p s) (c : Call p) : L.serve db ⟨p, c⟩ =
      (some ⟨p, ((S p).serve s c).1⟩,
        Function.update db (L.key p) (L.store p ((S p).serve s c).2)) := by
  simp only [serve, h, L.fetch_store]

variable [DecidableEq Part]

def callsOf (p : Part) (calls : List ((p : Part) × Call p)) : List (Call p) :=
  calls.filterMap fun c => if h : c.1 = p then some (h ▸ c.2) else none

/-- The calls of one service that were answered, with their replies. -/
def answersOf (p : Part) (history : List (((p : Part) × Call p) × Option ((p : Part) × Reply p))) :
    List (Call p × Reply p) :=
  history.filterMap fun e =>
    if h : e.1.1 = p then
      e.2.bind fun r => if h' : r.1 = p then some (h ▸ e.1.2, h' ▸ r.2) else none
    else none

section Lists
variable {p : Part} {calls : List ((p : Part) × Call p)}
  {history : List (((p : Part) × Call p) × Option ((p : Part) × Reply p))}

@[simp] theorem callsOf_concat_self (c : Call p) :
    callsOf p (calls ++ [⟨p, c⟩]) = callsOf p calls ++ [c] := by
  simp [callsOf]

theorem callsOf_concat_of_ne {c : (p : Part) × Call p} (h : c.1 ≠ p) :
    callsOf p (calls ++ [c]) = callsOf p calls := by
  simp [callsOf, h]

theorem mem_callsOf {c : Call p} : c ∈ callsOf p calls ↔ ⟨p, c⟩ ∈ calls := by
  simp only [callsOf, List.mem_filterMap]
  constructor
  · rintro ⟨⟨q, d⟩, hmem, heq⟩
    by_cases hq : q = p
    · subst hq
      simp only [dif_pos, Option.some.injEq] at heq
      exact heq ▸ hmem
    · simp [hq] at heq
  · exact fun hmem => ⟨_, hmem, by simp⟩

@[simp] theorem answersOf_concat_self (c : Call p) (r : Reply p) :
    answersOf p (history ++ [(⟨p, c⟩, some ⟨p, r⟩)]) = answersOf p history ++ [(c, r)] := by
  simp [answersOf]

theorem answersOf_concat_of_ne {c : (p : Part) × Call p} (h : c.1 ≠ p)
    (r : Option ((p : Part) × Reply p)) :
    answersOf p (history ++ [(c, r)]) = answersOf p history := by
  simp [answersOf, h]

end Lists

/-- Under the key of each service there is its state after its own calls. -/
theorem state_key (calls : List ((p : Part) × Call p)) (p : Part) :
    L.shared.state calls (L.key p) = L.store p ((S p).state (callsOf p calls)) := by
  induction calls using List.reverseRecOn generalizing p with
  | nil => exact (L.store_initial p).symm
  | append_singleton calls c ih =>
    obtain ⟨q, c⟩ := c
    have hstate : L.shared.state (calls ++ [⟨q, c⟩]) = Function.update (L.shared.state calls)
        (L.key q) (L.store q ((S q).serve ((S q).state (callsOf q calls)) c).2) :=
      (Service.state_concat _ _ _).trans (congrArg Prod.snd (serve_of_stored (ih q) c))
    rw [hstate]
    by_cases hq : q = p
    · subst hq
      rw [Function.update_self, callsOf_concat_self, Service.state_concat]
    · rw [Function.update_of_ne (L.key_injective.ne fun h => hq h.symm),
        callsOf_concat_of_ne hq, ih p]

/-- There is nothing under any other key. -/
theorem state_of_not_key (calls : List ((p : Part) × Call p)) {k : Key} (h : ∀ p, L.key p ≠ k) :
    L.shared.state calls k = none := by
  induction calls using List.reverseRecOn with
  | nil => rfl
  | append_singleton calls c ih =>
    have hstate := congrArg Prod.snd (serve_of_stored (L.state_key calls c.1) c.2)
    rw [Service.state_concat, show L.shared.serve = L.serve from rfl, hstate]
    exact (Function.update_of_ne (h c.1).symm _ _).trans ih

/-- No call is refused. -/
theorem isSome_of_mem_history (calls : List ((p : Part) × Call p)) :
    ∀ e ∈ L.shared.history calls, e.2.isSome := by
  induction calls using List.reverseRecOn with
  | nil => exact List.forall_mem_nil _
  | append_singleton calls c ih =>
    rw [Service.history_concat, List.forall_mem_append, List.forall_mem_singleton]
    refine ⟨ih, ?_⟩
    have hserve := serve_of_stored (L.state_key calls c.1) c.2
    exact Option.isSome_iff_exists.mpr ⟨_, congrArg Prod.fst hserve⟩

/-- The answers of each service are those it gives on its own calls alone. -/
theorem answersOf_history (calls : List ((p : Part) × Call p)) (p : Part) :
    answersOf p (L.shared.history calls) = (S p).history (callsOf p calls) := by
  induction calls using List.reverseRecOn with
  | nil => rfl
  | append_singleton calls c ih =>
    obtain ⟨q, c⟩ := c
    rw [Service.history_concat]
    by_cases hq : q = p
    · subst hq
      have hserve := serve_of_stored (L.state_key calls q) c
      rw [show (L.shared.serve (L.shared.state calls) ⟨q, c⟩).1 = _ from congrArg Prod.fst hserve,
        answersOf_concat_self, callsOf_concat_self, Service.history_concat, ih]
    · rw [answersOf_concat_of_ne hq, callsOf_concat_of_ne hq, ih]

end Layout

end InferenceGateway.Library
