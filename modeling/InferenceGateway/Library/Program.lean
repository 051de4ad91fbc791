import Mathlib.Data.List.Basic

/-!
# Programs that perform operations

A program performs operations one at a time and goes on with the reply to each. It can
be run against answers that depend on everything that happened before, so a statement
about all answers is a statement about every environment. A contract says which
operations a program may perform and what it may expect of the replies; `wp` is the
weakest precondition of a program under a contract, for postconditions about the result
and the trace of operations with their replies.
-/
namespace InferenceGateway.Library

inductive Program (Op : Type) (Reply : Op → Type) (α : Type) : Type where
  | pure (a : α)
  | perform (op : Op) (next : Reply op → Program Op Reply α)

namespace Program

variable {Op : Type} {Reply : Op → Type} {α β : Type}

def bind (p : Program Op Reply α) (f : α → Program Op Reply β) : Program Op Reply β :=
  match p with
  | .pure a => f a
  | .perform op next => .perform op fun r => (next r).bind f

instance : Monad (Program Op Reply) where
  pure := .pure
  bind := bind

theorem bind_pure_right (p : Program Op Reply α) : p.bind pure = p := by
  induction p with
  | pure a => rfl
  | perform op next ih => exact congrArg (perform op) (funext ih)

theorem bind_bind {γ : Type} (p : Program Op Reply α) (f : α → Program Op Reply β)
    (g : β → Program Op Reply γ) : (p.bind f).bind g = p.bind fun a => (f a).bind g := by
  induction p with
  | pure a => rfl
  | perform op next ih => exact congrArg (perform op) (funext ih)

instance : LawfulMonad (Program Op Reply) :=
  LawfulMonad.mk' _ bind_pure_right (fun _ _ => rfl) bind_bind

/-- An operation with the reply it got. -/
abbrev Event (Op : Type) (Reply : Op → Type) := (op : Op) × Reply op

/-- The events and the result of a program, from a past and with the given answers. -/
def run (answer : List (Event Op Reply) → (op : Op) → Reply op) (past : List (Event Op Reply)) :
    Program Op Reply α → List (Event Op Reply) × α
  | .pure a => ([], a)
  | .perform op next =>
    let e : Event Op Reply := ⟨op, answer past op⟩
    let rest := run answer (past ++ [e]) (next (answer past op))
    (e :: rest.1, rest.2)

/-- Which operations a program may perform, and what it may expect of the replies. -/
structure Contract (Op : Type) (Reply : Op → Type) where
  allowed : Op → Prop
  promised : (op : Op) → Reply op → Prop

/-- Any operation may be performed. -/
def Contract.expecting (promised : (op : Op) → Reply op → Prop) : Contract Op Reply :=
  ⟨fun _ => True, promised⟩

/-- The weakest precondition: every operation is allowed, and whatever promised replies
it gets, the trace and the result satisfy the postcondition. -/
def wp (C : Contract Op Reply) : Program Op Reply α →
    (List (Event Op Reply) → α → Prop) → Prop
  | .pure a, Q => Q [] a
  | .perform op next, Q =>
    C.allowed op ∧ ∀ r, C.promised op r → wp C (next r) fun trace a => Q (⟨op, r⟩ :: trace) a

variable {C : Contract Op Reply} {p : Program Op Reply α} {f : α → Program Op Reply β}

@[simp] theorem wp_pure (a : α) (Q : List (Event Op Reply) → α → Prop) :
    wp C (Pure.pure a : Program Op Reply α) Q ↔ Q [] a := Iff.rfl

theorem wp_mono {Q Q' : List (Event Op Reply) → α → Prop} (h : wp C p Q)
    (hQ : ∀ trace a, Q trace a → Q' trace a) : wp C p Q' := by
  induction p generalizing Q Q' with
  | pure a => exact hQ _ _ h
  | perform op next ih =>
    obtain ⟨hallowed, hnext⟩ := h
    exact ⟨hallowed, fun r hr => ih r (hnext r hr) fun trace a => hQ _ a⟩

/-- A sequence of two programs has the concatenation of their traces. -/
theorem wp_bind (Q : List (Event Op Reply) → β → Prop) :
    wp C (p >>= f) Q ↔ wp C p fun trace a => wp C (f a) fun trace' b => Q (trace ++ trace') b := by
  induction p generalizing Q with
  | pure a => exact Iff.rfl
  | perform op next ih =>
    refine and_congr_right fun _ => forall_congr' fun r => imp_congr_right fun _ => ?_
    exact ih r fun trace b => Q (⟨op, r⟩ :: trace) b

theorem wp_map (g : α → β) (Q : List (Event Op Reply) → β → Prop) :
    wp C (g <$> p) Q ↔ wp C p fun trace a => Q trace (g a) := by
  refine (wp_bind Q).trans ?_
  constructor <;> refine fun h => wp_mono h fun trace a ha => ?_
  all_goals simpa [wp] using ha

/-- Some trace and result are reached if every operation has a reply that is promised. -/
theorem wp_exists {Q : List (Event Op Reply) → α → Prop} (hreply : ∀ op, ∃ r, C.promised op r)
    (h : wp C p Q) : ∃ trace a, Q trace a := by
  induction p generalizing Q with
  | pure a => exact ⟨[], a, h⟩
  | perform op next ih =>
    obtain ⟨r, hr⟩ := hreply op
    obtain ⟨trace, a, ha⟩ := ih r (h.2 r hr)
    exact ⟨_, a, ha⟩

/-- A program keeps a contract that allows more and promises more. -/
theorem wp_weaken {C' : Contract Op Reply} {Q : List (Event Op Reply) → α → Prop} (h : wp C p Q)
    (hallowed : ∀ op, C.allowed op → C'.allowed op)
    (hpromised : ∀ op r, C'.promised op r → C.promised op r) : wp C' p Q := by
  induction p generalizing Q with
  | pure a => exact h
  | perform op next ih =>
    exact ⟨hallowed op h.1, fun r hr => ih r (h.2 r (hpromised op r hr))⟩

/-- The operations performed are allowed and their replies are promised. -/
theorem wp_kept {Q : List (Event Op Reply) → α → Prop} (h : wp C p Q) :
    wp C p fun trace a => (∀ e ∈ trace, C.allowed e.1 ∧ C.promised e.1 e.2) ∧ Q trace a := by
  induction p generalizing Q with
  | pure a => exact ⟨by simp, h⟩
  | perform op next ih =>
    refine ⟨h.1, fun r hr => wp_mono (ih r (h.2 r hr)) fun trace a ha => ?_⟩
    exact ⟨List.forall_mem_cons.mpr ⟨⟨h.1, hr⟩, ha.1⟩, ha.2⟩

/-- What every complete trace shows of its operations holds of every operation when it is
performed, since some reply lets the program go on. -/
theorem wp_of_trace {allowed : Op → Prop} {promised : (op : Op) → Reply op → Prop}
    (hreply : ∀ op, ∃ r, promised op r)
    (h : wp (.expecting promised) p fun trace _ => ∀ e ∈ trace, allowed e.1) :
    wp ⟨allowed, promised⟩ p fun _ _ => True := by
  suffices hmain : ∀ past : List (Event Op Reply), wp (.expecting promised) p
      (fun trace _ => ∀ e ∈ past ++ trace, allowed e.1) → wp ⟨allowed, promised⟩ p fun _ _ => True
    from hmain [] h
  clear h
  induction p with
  | pure a => exact fun _ _ => trivial
  | perform op next ih =>
    intro past h
    have hnext : ∀ r, promised op r → wp (.expecting promised) (next r)
        (fun trace _ => ∀ e ∈ (past ++ [⟨op, r⟩]) ++ trace, allowed e.1) := fun r hr => by
      simpa using h.2 r hr
    refine ⟨?_, fun r hr => ih r _ (hnext r hr)⟩
    obtain ⟨r, hr⟩ := hreply op
    obtain ⟨trace, a, ha⟩ := wp_exists hreply (hnext r hr)
    exact ha ⟨op, r⟩ (by simp)

/-- What the weakest precondition says holds of every run whose answers keep the promises. -/
theorem wp_run {Q : List (Event Op Reply) → α → Prop} (h : wp C p Q)
    {answer : List (Event Op Reply) → (op : Op) → Reply op}
    (hanswer : ∀ past op, C.promised op (answer past op)) (past : List (Event Op Reply)) :
    Q (run answer past p).1 (run answer past p).2 := by
  induction p generalizing Q past with
  | pure a => exact h
  | perform op next ih => exact ih _ (h.2 _ (hanswer past op)) _

end Program

/-! ## Operations that may raise -/

section Action
variable {Error Op : Type} {Ret : Op → Type} {α β : Type}

/-- A program whose operations either return or raise. -/
abbrev Action (Error Op : Type) (Ret : Op → Type) :=
  ExceptT Error (Program Op fun op => Except Error (Ret op))

namespace Action
open Program

def call (op : Op) : Action Error Op Ret (Ret op) := ExceptT.mk (.perform op .pure)

/-- Observe how an action ends instead of raising. -/
def attempt (x : Action Error Op Ret α) : Action Error Op Ret (Except Error α) :=
  ExceptT.mk (x.run >>= fun r => Pure.pure (.ok r))

def wp (C : Contract Op fun op => Except Error (Ret op)) (x : Action Error Op Ret α)
    (Q : List (Event Op fun op => Except Error (Ret op)) → Except Error α → Prop) : Prop :=
  Program.wp C x.run Q

variable {C : Contract Op fun op => Except Error (Ret op)} {x : Action Error Op Ret α}
  {f : α → Action Error Op Ret β}

theorem wp_pure (a : α)
    (Q : List (Event Op fun op => Except Error (Ret op)) → Except Error α → Prop) :
    wp C (Pure.pure a : Action Error Op Ret α) Q ↔ Q [] (.ok a) := Iff.rfl

theorem wp_throw (e : Error)
    (Q : List (Event Op fun op => Except Error (Ret op)) → Except Error α → Prop) :
    wp C (throw e : Action Error Op Ret α) Q ↔ Q [] (.error e) := Iff.rfl

theorem wp_call (op : Op)
    (Q : List (Event Op fun op => Except Error (Ret op)) → Except Error (Ret op) → Prop) :
    wp C (call op : Action Error Op Ret (Ret op)) Q ↔
      C.allowed op ∧ ∀ r, C.promised op r → Q [⟨op, r⟩] r := Iff.rfl

theorem wp_mono {Q Q' : List (Event Op fun op => Except Error (Ret op)) → Except Error α → Prop}
    (h : wp C x Q) (hQ : ∀ trace r, Q trace r → Q' trace r) : wp C x Q' :=
  Program.wp_mono h hQ

/-- An action that raises ends the sequence. -/
theorem wp_bind (Q : List (Event Op fun op => Except Error (Ret op)) → Except Error β → Prop) :
    wp C (x >>= f) Q ↔ wp C x fun trace r => match r with
      | .ok a => wp C (f a) fun trace' b => Q (trace ++ trace') b
      | .error e => Q trace (.error e) := by
  refine (Program.wp_bind Q).trans ?_
  constructor <;> refine fun h => Program.wp_mono h fun trace r hr => ?_
  all_goals cases r with
    | ok a => exact hr
    | error e => simpa [ExceptT.bindCont, Program.wp] using hr

theorem wp_attempt (Q : List (Event Op fun op => Except Error (Ret op)) →
    Except Error (Except Error α) → Prop) :
    wp C (attempt x) Q ↔ wp C x fun trace r => Q trace (.ok r) := by
  refine (Program.wp_bind Q).trans ?_
  constructor <;> refine fun h => Program.wp_mono h fun trace r hr => ?_
  all_goals simpa [Program.wp] using hr

/-- An operation at the head of a sequence. -/
theorem wp_call_bind {op : Op} {f : Ret op → Action Error Op Ret β}
    {Q : List (Event Op fun op => Except Error (Ret op)) → Except Error β → Prop}
    (hallowed : C.allowed op)
    (hraises : ∀ e, C.promised op (.error e) → Q [⟨op, .error e⟩] (.error e))
    (hreturns : ∀ a, C.promised op (.ok a) →
      wp C (f a) fun trace r => Q (⟨op, .ok a⟩ :: trace) r) : wp C (call op >>= f) Q := by
  refine (wp_bind _).mpr ((wp_call _ _).mpr ⟨hallowed, fun r hr => ?_⟩)
  cases r with
  | error e => exact hraises e hr
  | ok a => exact hreturns a hr

/-- An operation at the head of a sequence whose exceptions are caught. -/
theorem wp_attempt_bind {op : Op} {f : Except Error (Ret op) → Action Error Op Ret β}
    {Q : List (Event Op fun op => Except Error (Ret op)) → Except Error β → Prop}
    (hallowed : C.allowed op) (hreplied : ∀ reply, C.promised op reply →
      wp C (f reply) fun trace r => Q (⟨op, reply⟩ :: trace) r) :
    wp C (attempt (call op) >>= f) Q :=
  (wp_bind _).mpr ((wp_attempt _).mpr ((wp_call _ _).mpr ⟨hallowed, hreplied⟩))

end Action

end Action

end InferenceGateway.Library
