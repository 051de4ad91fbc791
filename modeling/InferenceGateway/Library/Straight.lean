import InferenceGateway.Library.Program

/-!
# Straight actions

An action is straight if it ends with the first operation that raises. Most of what a
program does besides its main decisions is of this kind, and of such a part it is enough
to know which operations it may perform.
-/
namespace InferenceGateway.Library

section Action
variable {Error Op : Type} {Ret : Op → Type} {α β : Type}

abbrev ActionEvent (Error Op : Type) (Ret : Op → Type) :=
  Program.Event Op fun op => Except Error (Ret op)

/-- Every operation has returned. -/
def Smooth (trace : List (ActionEvent Error Op Ret)) : Prop := ∀ e ∈ trace, ∃ a, e.2 = .ok a

/-- Every operation has returned, or all but the last one, whose exception is the result. -/
def Ended (trace : List (ActionEvent Error Op Ret)) : Except Error α → Prop
  | .ok _ => Smooth trace
  | .error e => ∃ before op, trace = before ++ [⟨op, .error e⟩] ∧ Smooth before

theorem Smooth.nil : Smooth ([] : List (ActionEvent Error Op Ret)) := by simp [Smooth]

theorem Smooth.append {trace trace' : List (ActionEvent Error Op Ret)} (h : Smooth trace)
    (h' : Smooth trace') : Smooth (trace ++ trace') := by
  intro e he
  obtain hl | hr := List.mem_append.mp he
  · exact h e hl
  · exact h' e hr

theorem Smooth.cons {trace : List (ActionEvent Error Op Ret)} {op : Op} (a : Ret op)
    (h : Smooth trace) : Smooth (⟨op, .ok a⟩ :: trace) := List.forall_mem_cons.mpr ⟨⟨a, rfl⟩, h⟩

theorem Ended.after {trace trace' : List (ActionEvent Error Op Ret)} {r : Except Error α}
    (h : Smooth trace) (h' : Ended trace' r) : Ended (trace ++ trace') r := by
  cases r with
  | ok a => exact h.append h'
  | error e =>
    obtain ⟨before, op, rfl, hbefore⟩ := h'
    exact ⟨trace ++ before, op, (List.append_assoc ..).symm, h.append hbefore⟩

theorem Ended.cons {trace : List (ActionEvent Error Op Ret)} {r : Except Error α} {op : Op}
    (a : Ret op) (h : Ended trace r) : Ended (⟨op, .ok a⟩ :: trace) r :=
  h.after (Smooth.nil.cons a)

/-- The exception of an action that has ended early is that of one of its operations. -/
theorem Ended.raised {trace : List (ActionEvent Error Op Ret)} {e : Error}
    (h : Ended trace (.error e : Except Error α)) : ∃ op, ⟨op, .error e⟩ ∈ trace := by
  obtain ⟨before, op, rfl, -⟩ := h
  exact ⟨op, List.mem_append_right _ List.mem_cons_self⟩

/-- No operation raises unless the action does, and then the same. -/
theorem Ended.eq_of_raised {trace : List (ActionEvent Error Op Ret)} {r : Except Error α}
    (h : Ended trace r) {op : Op} {e : Error} (he : ⟨op, .error e⟩ ∈ trace) : r = .error e := by
  cases r with
  | ok a =>
    obtain ⟨b, hb⟩ := h _ he
    exact nomatch hb
  | error e' =>
    obtain ⟨before, op', rfl, hbefore⟩ := h
    obtain hold | hlast := List.mem_append.mp he
    · obtain ⟨b, hb⟩ := hbefore _ hold
      exact nomatch hb
    · obtain ⟨rfl, heq⟩ := Sigma.mk.inj (List.mem_singleton.mp hlast)
      rw [Except.error.inj (eq_of_heq heq)]

namespace Action
open Program

/-- The action performs operations of a set only. -/
def Confined (C : Contract Op fun op => Except Error (Ret op)) (S : Op → Prop)
    (x : Action Error Op Ret α) : Prop :=
  wp C x fun trace _ => ∀ e ∈ trace, S e.1

namespace Confined
variable {C : Contract Op fun op => Except Error (Ret op)} {S : Op → Prop}
  {x : Action Error Op Ret α} {f : α → Action Error Op Ret β}

theorem pure (a : α) : Confined C S (Pure.pure a : Action Error Op Ret α) :=
  (wp_pure _ _).mpr (List.forall_mem_nil _)

theorem throw (e : Error) : Confined C S (MonadExcept.throw e : Action Error Op Ret α) :=
  (wp_throw _ _).mpr (List.forall_mem_nil _)

theorem bind (hx : Confined C S x) (hf : ∀ a, Confined C S (f a)) : Confined C S (x >>= f) := by
  refine (wp_bind _).mpr (wp_mono hx fun trace r hr => ?_)
  cases r with
  | error e => exact hr
  | ok a => exact wp_mono (hf a) fun _ _ hr' => List.forall_mem_append.mpr ⟨hr, hr'⟩

end Confined

/-- The action performs operations of a set only, and ends with the first one that raises. -/
def Straight (C : Contract Op fun op => Except Error (Ret op)) (S : Op → Prop)
    (x : Action Error Op Ret α) : Prop :=
  wp C x fun trace r => (∀ e ∈ trace, S e.1) ∧ Ended trace r

namespace Straight
variable {C : Contract Op fun op => Except Error (Ret op)} {S S' : Op → Prop}
  {x : Action Error Op Ret α} {f : α → Action Error Op Ret β}

theorem pure (a : α) : Straight C S (Pure.pure a : Action Error Op Ret α) := ⟨by simp, .nil⟩

theorem call {op : Op} (hallowed : C.allowed op) (h : S op) :
    Straight C S (call op : Action Error Op Ret (Ret op)) := by
  refine (wp_call _ _).mpr ⟨hallowed, fun r _ => ⟨by simpa using h, ?_⟩⟩
  cases r with
  | ok a =>
    intro e he
    rw [List.mem_singleton.mp he]
    exact ⟨a, rfl⟩
  | error e => exact ⟨[], op, rfl, .nil⟩

theorem bind (hx : Straight C S x) (hf : ∀ a, Straight C S (f a)) : Straight C S (x >>= f) := by
  refine (wp_bind _).mpr (wp_mono hx fun trace r hr => ?_)
  cases r with
  | ok a =>
    refine wp_mono (hf a) fun trace' r' hr' => ⟨?_, hr'.2.after hr.2⟩
    exact List.forall_mem_append.mpr ⟨hr.1, hr'.1⟩
  | error e => exact hr

/-- One operation and the rest. -/
theorem perform {op : Op} {f : Ret op → Action Error Op Ret β} (hallowed : C.allowed op) (h : S op)
    (hf : ∀ a, Straight C S (f a)) : Straight C S (Action.call op >>= f) :=
  (call hallowed h).bind hf

/-- One operation and the rest, which may use what is promised of the reply. -/
theorem perform_promised {op : Op} {f : Ret op → Action Error Op Ret β}
    (hallowed : C.allowed op) (h : S op)
    (hf : ∀ a, C.promised op (.ok a) → Straight C S (f a)) :
    Straight C S (Action.call op >>= f) := by
  refine wp_call_bind hallowed (fun e _ => ⟨by simpa using h, [], op, rfl, .nil⟩) fun a ha => ?_
  refine wp_mono (hf a ha) fun trace r hr => ⟨?_, hr.2.cons a⟩
  exact List.forall_mem_cons.mpr ⟨h, hr.1⟩

/-- An operation that is promised to raise ends the action. -/
theorem fails {op : Op} {f : Ret op → Action Error Op Ret β} (hallowed : C.allowed op) (h : S op)
    (hraises : ∀ r, C.promised op r → ∃ e, r = .error e) : Straight C S (Action.call op >>= f) := by
  refine (wp_bind _).mpr ((wp_call _ _).mpr ⟨hallowed, fun r hr => ?_⟩)
  obtain ⟨e, rfl⟩ := hraises r hr
  exact ⟨by simpa using h, [], op, rfl, .nil⟩

/-- An action returns if its operations are promised not to raise. -/
theorem returns (h : Straight C S x)
    (hreturns : ∀ op r, S op → C.promised op r → ∃ a, r = .ok a) :
    wp C x fun trace r => (∀ e ∈ trace, S e.1) ∧ ∃ a, r = .ok a := by
  refine wp_mono (Program.wp_kept h) fun trace r hr => ?_
  obtain ⟨hkept, hops, hended⟩ := hr
  refine ⟨hops, ?_⟩
  cases r with
  | ok a => exact ⟨a, rfl⟩
  | error e =>
    obtain ⟨op, hmem⟩ := hended.raised
    obtain ⟨a, ha⟩ := hreturns op _ (hops _ hmem) (hkept _ hmem).2
    exact nomatch ha

theorem confined (h : Straight C S x) (hS : ∀ op, S op → S' op) : Confined C S' x :=
  wp_mono h fun _ _ hr e he => hS _ (hr.1 e he)

theorem mono (h : Straight C S x) (hS : ∀ op, S op → S' op) : Straight C S' x :=
  wp_mono h fun _ _ hr => ⟨fun e he => hS _ (hr.1 e he), hr.2⟩

end Straight

end Action

end Action

end InferenceGateway.Library
