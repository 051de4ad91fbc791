import InferenceGateway.Library.Program

/-!
# Running programs on a state

`exec` runs a program against a handler, which answers each operation from a state and
changes it. `beside` puts a hidden component next to a state: a program that performs no
hidden operation runs on the pair as it runs on the state alone.
-/
namespace InferenceGateway.Library

namespace Program

variable {Op : Type} {Reply : Op → Type} {α β σ κ : Type}

/-- How a state answers operations and changes. -/
abbrev Handler (Op : Type) (Reply : Op → Type) (σ : Type) := σ → (op : Op) → Reply op × σ

/-- The result and the final state. -/
def exec (serve : Handler Op Reply σ) : Program Op Reply α → σ → α × σ
  | .pure a, s => (a, s)
  | .perform op next, s => exec serve (next (serve s op).1) (serve s op).2

/-- The operations performed, with their replies. -/
def trace (serve : Handler Op Reply σ) : Program Op Reply α → σ → List (Event Op Reply)
  | .pure _, _ => []
  | .perform op next, s => ⟨op, (serve s op).1⟩ :: trace serve (next (serve s op).1) (serve s op).2

variable {serve : Handler Op Reply σ} {p : Program Op Reply α} {f : α → Program Op Reply β}

@[simp] theorem exec_pure (a : α) (s : σ) :
    exec serve (Pure.pure a : Program Op Reply α) s = (a, s) := rfl

@[simp] theorem exec_bind (s : σ) :
    exec serve (p >>= f) s = exec serve (f (exec serve p s).1) (exec serve p s).2 := by
  induction p generalizing s with
  | pure a => rfl
  | perform op next ih => exact ih _ _

theorem trace_bind (s : σ) : trace serve (p >>= f) s =
    trace serve p s ++ trace serve (f (exec serve p s).1) (exec serve p s).2 := by
  induction p generalizing s with
  | pure a => rfl
  | perform op next ih => exact congrArg (_ :: ·) (ih _ _)

/-- What holds of every answer holds of every event. -/
theorem forall_mem_trace {P : Event Op Reply → Prop} (hserve : ∀ s op, P ⟨op, (serve s op).1⟩)
    (s : σ) : ∀ e ∈ trace serve p s, P e := by
  induction p generalizing s with
  | pure a => exact fun e he => nomatch he
  | perform op next ih => exact List.forall_mem_cons.mpr ⟨hserve s op, ih _ _⟩

/-- What the weakest precondition says holds of an execution whose replies keep the
promises. -/
theorem wp_exec {C : Contract Op Reply} {Q : List (Event Op Reply) → α → Prop} (h : wp C p Q)
    (hserve : ∀ s op, C.allowed op → C.promised op (serve s op).1) (s : σ) :
    Q (trace serve p s) (exec serve p s).1 := by
  induction p generalizing Q s with
  | pure a => exact h
  | perform op next ih => exact ih _ (h.2 _ (hserve s op h.1)) _

/-! ## A hidden component -/

/-- The program performs no hidden operation, whatever the replies. -/
def Avoids (hidden : Op → Bool) (p : Program Op Reply α) : Prop :=
  wp ⟨fun op => hidden op = false, fun _ _ => True⟩ p fun _ _ => True

/-- A hidden component beside a state. Hidden operations may see and change both, the
others act on the state alone. -/
def beside (hidden : Op → Bool) (side : Handler Op Reply (κ × σ)) (main : Handler Op Reply σ) :
    Handler Op Reply (κ × σ) := fun s op =>
  if hidden op then side s op else ((main s.2 op).1, (s.1, (main s.2 op).2))

variable {hidden : Op → Bool} {side : Handler Op Reply (κ × σ)} {main : Handler Op Reply σ}

theorem beside_hidden {op : Op} (h : hidden op = true) (s : κ × σ) :
    beside hidden side main s op = side s op := if_pos h

theorem beside_shown {op : Op} (h : hidden op = false) (k : κ) (s : σ) :
    beside hidden side main (k, s) op = ((main s op).1, (k, (main s op).2)) :=
  if_neg (by simp [h])

/-- A program that avoids the hidden operations neither changes the hidden component nor
depends on it. -/
theorem Avoids.exec_beside (h : Avoids hidden p) (k : κ) (s : σ) :
    exec (beside hidden side main) p (k, s) = ((exec main p s).1, (k, (exec main p s).2)) ∧
      trace (beside hidden side main) p (k, s) = trace main p s := by
  induction p generalizing s with
  | pure a => exact ⟨rfl, rfl⟩
  | perform op next ih =>
    have hop : beside hidden side main (k, s) op = ((main s op).1, (k, (main s op).2)) :=
      beside_shown h.1 k s
    obtain ⟨hexec, htrace⟩ := ih (main s op).1 (h.2 _ trivial) (main s op).2
    constructor
    · simpa only [exec, hop] using hexec
    · simpa only [trace, hop, List.cons.injEq, true_and] using htrace

/-- A program whose hidden operations would all show as events of a certain kind runs as
on the state alone, next to any component, if no such event shows. -/
theorem exec_beside_of_unseen {seen : Event Op Reply → Prop} {k : κ}
    {promised : (op : Op) → Reply op → Prop}
    (hmain : ∀ s op, hidden op = false → promised op (main s op).1)
    (h : wp ⟨fun op => hidden op = true → ∀ s, seen ⟨op, (side (k, s) op).1⟩, promised⟩ p
      fun _ _ => True) {s : σ}
    (hunseen : ∀ e ∈ trace (beside hidden side main) p (k, s), ¬ seen e)
    (side' : Handler Op Reply (κ × σ)) (k' : κ) :
    exec (beside hidden side' main) p (k', s) = ((exec main p s).1, (k', (exec main p s).2)) := by
  induction p generalizing s with
  | pure a => rfl
  | perform op next ih =>
    cases hop : hidden op with
    | true =>
      refine absurd (h.1 hop s) ?_
      have hhead := hunseen _ (List.mem_cons_self (α := Event Op Reply))
      rwa [beside_hidden hop] at hhead
    | false =>
      have hshown : beside hidden side main (k, s) op = ((main s op).1, (k, (main s op).2)) :=
        beside_shown hop k s
      have hshown' : beside hidden side' main (k', s) op = ((main s op).1, (k', (main s op).2)) :=
        beside_shown hop k' s
      simp only [exec, hshown']
      refine ih _ (h.2 _ (hmain s op hop)) fun e he => hunseen e ?_
      simp only [trace, hshown]
      exact List.mem_cons_of_mem _ he

end Program

section Action
variable {Error Op : Type} {Ret : Op → Type} {α β σ : Type}

namespace Action
open Program

def exec (serve : Handler Op (fun op => Except Error (Ret op)) σ) (x : Action Error Op Ret α)
    (s : σ) : Except Error α × σ :=
  Program.exec serve x.run s

variable {serve : Handler Op (fun op => Except Error (Ret op)) σ} {x : Action Error Op Ret α}
  {f : α → Action Error Op Ret β} {s s' : σ}

@[simp] theorem exec_pure (a : α) :
    exec serve (Pure.pure a : Action Error Op Ret α) s = (.ok a, s) := rfl

@[simp] theorem exec_call (op : Op) :
    exec serve (call op : Action Error Op Ret (Ret op)) s = serve s op := rfl

theorem exec_bind : exec serve (x >>= f) s =
    match exec serve x s with
    | (.ok a, s') => exec serve (f a) s'
    | (.error e, s') => (.error e, s') := by
  refine (Program.exec_bind s).trans ?_
  change Program.exec serve (ExceptT.bindCont f (exec serve x s).1) (exec serve x s).2 = _
  obtain ⟨r, s'⟩ := exec serve x s
  cases r with
  | ok a => rfl
  | error e => rfl

theorem exec_bind_ok {a : α} {t : σ} (h : exec serve x s = (.ok a, t)) :
    exec serve (x >>= f) s = exec serve (f a) t := by
  rw [exec_bind, h]

theorem exec_bind_error {e : Error} (h : exec serve x s = (.error e, s')) :
    exec serve (x >>= f) s = (.error e, s') := by
  rw [exec_bind, h]

@[simp] theorem exec_attempt :
    exec serve (attempt x) s = (.ok (exec serve x s).1, (exec serve x s).2) := by
  exact Program.exec_bind s

/-- The operations performed, with their replies. -/
def trace (serve : Handler Op (fun op => Except Error (Ret op)) σ) (x : Action Error Op Ret α)
    (s : σ) : List (Event Op fun op => Except Error (Ret op)) :=
  Program.trace serve x.run s

theorem trace_bind : trace serve (x >>= f) s = trace serve x s ++
    match exec serve x s with
    | (.ok a, s') => trace serve (f a) s'
    | (.error _, _) => [] := by
  refine (Program.trace_bind s).trans (congrArg _ ?_)
  change Program.trace serve (ExceptT.bindCont f (exec serve x s).1) (exec serve x s).2 = _
  obtain ⟨r, s'⟩ := exec serve x s
  cases r with
  | ok a => rfl
  | error e => rfl

@[simp] theorem trace_call (op : Op) :
    trace serve (call op : Action Error Op Ret (Ret op)) s = [⟨op, (serve s op).1⟩] := rfl

end Action

end Action

end InferenceGateway.Library
