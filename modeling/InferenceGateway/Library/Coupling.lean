import InferenceGateway.Library.Execution

/-!
# Two executions side by side

Two actions are coupled if, from related states, they both return or both raise, with
related results and states. The rules are those of one execution, taken two at a time.
-/
namespace InferenceGateway.Library

section Action
variable {Error Op : Type} {Ret : Op → Type} {α β α' β' σ τ : Type}

namespace Action
open Program

/-- Both return, or both raise. -/
inductive Joint (A : α → σ → β → τ → Prop) (Z : Error → σ → Error → τ → Prop) :
    Except Error α × σ → Except Error β × τ → Prop
  | returns {a : α} {s : σ} {b : β} {t : τ} (h : A a s b t) : Joint A Z (.ok a, s) (.ok b, t)
  | raises {e : Error} {s : σ} {e' : Error} {t : τ} (h : Z e s e' t) :
      Joint A Z (.error e, s) (.error e', t)

/-- From states related by `I` the two executions end as `A` and `Z` say. -/
def Coupled (serve : Handler Op (fun op => Except Error (Ret op)) σ)
    (serve' : Handler Op (fun op => Except Error (Ret op)) τ) (I : σ → τ → Prop)
    (x : Action Error Op Ret α) (y : Action Error Op Ret β) (A : α → σ → β → τ → Prop)
    (Z : Error → σ → Error → τ → Prop) : Prop :=
  ∀ s t, I s t → Joint A Z (x.exec serve s) (y.exec serve' t)

namespace Coupled
variable {serve : Handler Op (fun op => Except Error (Ret op)) σ}
  {serve' : Handler Op (fun op => Except Error (Ret op)) τ} {I : σ → τ → Prop}
  {x : Action Error Op Ret α} {y : Action Error Op Ret β} {f : α → Action Error Op Ret α'}
  {g : β → Action Error Op Ret β'} {A : α → σ → β → τ → Prop} {B : α' → σ → β' → τ → Prop}
  {Z : Error → σ → Error → τ → Prop}

theorem pure {a : α} {b : β} (h : ∀ s t, I s t → A a s b t) :
    Coupled serve serve' I (Pure.pure a) (Pure.pure b) A Z :=
  fun s t hst => .returns (h s t hst)

theorem throw {e e' : Error} (h : ∀ s t, I s t → Z e s e' t) :
    Coupled serve serve' I (MonadExcept.throw e : Action Error Op Ret α)
      (MonadExcept.throw e' : Action Error Op Ret β) A Z :=
  fun s t hst => .raises (h s t hst)

/-- What the first parts leave behind is what the second parts start from. -/
theorem bind (hx : Coupled serve serve' I x y A Z)
    (hf : ∀ a b, Coupled serve serve' (fun s t => A a s b t) (f a) (g b) B Z) :
    Coupled serve serve' I (x >>= f) (y >>= g) B Z := by
  intro s t hst
  rw [exec_bind, exec_bind]
  generalize hx' : x.exec serve s = left, hy' : y.exec serve' t = right
  have hjoint := hx s t hst
  rw [hx', hy'] at hjoint
  cases hjoint with
  | returns ha => exact hf _ _ _ _ ha
  | raises hz => exact .raises hz

end Coupled

end Action

end Action

end InferenceGateway.Library
