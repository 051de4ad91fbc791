import InferenceGateway.Library.Program

/-!
# What an action returns

Under a contract an action gives a property if its result has it whenever it returns. What the
contract promises of each reply may be used in the rest of the action.
-/
namespace InferenceGateway.Library

section Action
variable {Error Op : Type} {Ret : Op → Type} {α β : Type}

namespace Action
open Program

/-- The action keeps the contract, and if it returns then its result is as said. -/
def Gives (C : Contract Op fun op => Except Error (Ret op)) (x : Action Error Op Ret α)
    (R : α → Prop) : Prop :=
  wp C x fun _ r => ∀ a, r = .ok a → R a

namespace Gives
variable {C : Contract Op fun op => Except Error (Ret op)} {x : Action Error Op Ret α}
  {f : α → Action Error Op Ret β} {R : α → Prop} {R' : β → Prop}

theorem run (h : Gives C x R) : wp C x.run fun _ r => ∀ a, r = .ok a → R a := h

theorem pure {a : α} (ha : R a) : Gives C (Pure.pure a : Action Error Op Ret α) R := by
  refine (wp_pure _ _).mpr fun b hb => ?_
  rwa [← Except.ok.inj hb]

theorem throw {e : Error} : Gives C (MonadExcept.throw e : Action Error Op Ret α) R :=
  (wp_throw _ _).mpr fun _ heq => nomatch heq

theorem bind (hx : Gives C x R) (hf : ∀ a, R a → Gives C (f a) R') : Gives C (x >>= f) R' := by
  refine (wp_bind _).mpr (wp_mono hx fun trace r hr => ?_)
  cases r with
  | ok a => exact hf a (hr a rfl)
  | error e => exact fun _ heq => nomatch heq

theorem call {op : Op} {R : Ret op → Prop} (hallowed : C.allowed op)
    (hpromised : ∀ a, C.promised op (.ok a) → R a) :
    Gives C (call op : Action Error Op Ret (Ret op)) R :=
  (wp_call _ _).mpr ⟨hallowed, fun _ hr a ha => hpromised a (ha ▸ hr)⟩

/-- One operation: what it promises can be used in the rest. -/
theorem perform {op : Op} {f : Ret op → Action Error Op Ret β} (hallowed : C.allowed op)
    (hf : ∀ a, C.promised op (.ok a) → Gives C (f a) R') :
    Gives C (Action.call op >>= f) R' :=
  (call hallowed fun _ ha => ha).bind hf

theorem attempt (hx : Gives C x R) :
    Gives C (Action.attempt x) fun r => ∀ a, r = .ok a → R a :=
  (wp_attempt _).mpr (wp_mono hx fun _ _ hr _ heq => Except.ok.inj heq ▸ hr)

/-- One operation whose exceptions are looked at. -/
theorem perform_attempt {op : Op} {f : Except Error (Ret op) → Action Error Op Ret β}
    (hallowed : C.allowed op) (hf : ∀ r, C.promised op r → Gives C (f r) R') :
    Gives C (Action.attempt (Action.call op) >>= f) R' :=
  wp_attempt_bind hallowed hf

end Gives

end Action

end Action

end InferenceGateway.Library
