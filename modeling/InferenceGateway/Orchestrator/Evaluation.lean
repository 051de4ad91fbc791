import InferenceGateway.Orchestrator.Pipeline

/-!
# Evaluating the handlers

The failover loop is defined by recursion on the number of remaining candidates, which the
kernel does not evaluate. `walkWithin` is the same loop with that number as fuel.
-/
namespace InferenceGateway.Orchestrator
open Library

/-- The loop of `walk`, for at most `fuel` candidates. -/
def walkWithin (req : ChatRequest) {α : Type} (stopped : Raised)
    (body : Backend → Client → Action (Pass α)) (exhausted : Option Raised → Action α) :
    (fuel : Nat) → List (Backend × Client) → Option Raised → Action α
  | 0, _, lastError => exhausted lastError
  | fuel + 1, remaining, lastError =>
    if remaining = [] then exhausted lastError
    else do
      let chosen ← call (.select (remaining.map Prod.fst) (features req))
      match pairOf chosen.id remaining with
      | none => throw stopped
      | some (backend, client) =>
        let rest := without chosen.id remaining
        if ← call (.allow backend.id) then
          match ← body backend client with
          | .next lastError => walkWithin req stopped body exhausted fuel rest lastError
          | .done a => return a
        else walkWithin req stopped body exhausted fuel rest lastError

theorem walk_eq_walkWithin {α : Type} (req : ChatRequest) (stopped : Raised)
    (body : Backend → Client → Action (Pass α)) (exhausted : Option Raised → Action α) {fuel : Nat}
    {remaining : List (Backend × Client)} (h : remaining.length ≤ fuel) (err : Option Raised) :
    walk req stopped body exhausted remaining err =
      walkWithin req stopped body exhausted fuel remaining err := by
  induction fuel generalizing remaining err with
  | zero =>
    obtain rfl := List.length_eq_zero_iff.mp (Nat.le_zero.mp h)
    rw [walk, if_pos rfl, walkWithin]
  | succ fuel ih =>
    rw [walk, walkWithin]
    by_cases hrem : remaining = []
    · rw [if_pos hrem, if_pos hrem]
    · rw [if_neg hrem, if_neg hrem]
      refine bind_congr fun chosen => ?_
      split
      · rename_i hpair
        rw [hpair]
      · rename_i backend client hpair
        have hlt := length_without_lt hpair
        have hrest : ∀ err, walk req stopped body exhausted (without chosen.id remaining) err =
            walkWithin req stopped body exhausted fuel (without chosen.id remaining) err :=
          fun err => ih (by omega) err
        rw [hpair]
        refine bind_congr fun admitted => ?_
        cases admitted with
        | false => exact hrest err
        | true =>
          refine bind_congr fun pass => ?_
          cases pass with
          | next err => exact hrest err
          | done a => rfl

/-- With all remaining candidates as fuel, for rewriting a handler into one that the kernel
evaluates. -/
theorem walk_evaluates : @walk = fun req α stopped body exhausted remaining err =>
    @walkWithin req α stopped body exhausted remaining.length remaining err := by
  funext req α stopped body exhausted remaining err
  exact walk_eq_walkWithin req stopped body exhausted le_rfl err

end InferenceGateway.Orchestrator
