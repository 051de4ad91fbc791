import InferenceGateway.Library.Straight

/-!
# Errors that end an action

Some errors an action may look at and go on, others it must not. It aborts on an error if, once an
operation has raised it, nothing but cleanup follows and the result tells the error.
-/
namespace InferenceGateway.Library

section Action
variable {Error Op : Type} {Ret : Op → Type} {α β : Type}

namespace Action
open Program

/-- After an operation that raises a fatal error there is only cleanup, and the result of the action
tells the error. -/
structure Aborts (fatal : Error → Prop) (cleanup : Op → Prop)
    (tells : Error → Except Error α → Prop) (trace : List (ActionEvent Error Op Ret))
    (r : Except Error α) : Prop where
  after : trace.Pairwise fun ev later => (∃ e, fatal e ∧ ev.2 = .error e) → cleanup later.1
  told : ∀ ev ∈ trace, ∀ e, fatal e → ev.2 = .error e → tells e r

/-- The action raises the error. -/
abbrev Raises (e : Error) (r : Except Error α) : Prop := r = .error e

section Rules
variable {C : Contract Op fun op => Except Error (Ret op)} {fatal : Error → Prop}
  {cleanup : Op → Prop} {x : Action Error Op Ret α} {f : α → Action Error Op Ret β}
  {told : Error → Except Error α → Prop} {tells : Error → Except Error β → Prop}
  {trace trace' : List (ActionEvent Error Op Ret)} {r : Except Error α} {r' : Except Error β}

theorem Aborts.nil : Aborts fatal cleanup told ([] : List (ActionEvent Error Op Ret)) r :=
  ⟨.nil, by simp⟩

/-- Where nothing raises there is nothing to tell. -/
theorem Aborts.of_smooth (h : Smooth trace) : Aborts fatal cleanup told trace r := by
  have hquiet : ∀ ev ∈ trace, ∀ e, ev.2 ≠ .error e := fun ev hev e he => by
    obtain ⟨a, ha⟩ := h ev hev
    exact nomatch ha.symm.trans he
  refine ⟨List.pairwise_of_forall_mem_list fun ev hev _ _ hstruck => ?_,
    fun ev hev e _ he => absurd he (hquiet ev hev e)⟩
  obtain ⟨e, -, he⟩ := hstruck
  exact absurd he (hquiet ev hev e)

/-- What has been told in the first part is cleaned up after and told again in the second. -/
theorem Aborts.append (h : Aborts fatal cleanup told trace r)
    (h' : Aborts fatal cleanup tells trace' r')
    (hafter : ∀ e, fatal e → told e r → (∀ ev ∈ trace', cleanup ev.1) ∧ tells e r') :
    Aborts fatal cleanup tells (trace ++ trace') r' := by
  refine ⟨List.pairwise_append.mpr ⟨h.after, h'.after, ?_⟩, fun ev hev e hfatal he => ?_⟩
  · rintro ev hev later hlater ⟨e, hfatal, he⟩
    exact (hafter e hfatal (h.told ev hev e hfatal he)).1 later hlater
  · obtain hfirst | hsecond := List.mem_append.mp hev
    · exact (hafter e hfatal (h.told ev hfirst e hfatal he)).2
    · exact h'.told ev hsecond e hfatal he

theorem Aborts.after_smooth (h : Smooth trace) (h' : Aborts fatal cleanup tells trace' r') :
    Aborts fatal cleanup tells (trace ++ trace') r' := by
  have hfirst : Aborts fatal cleanup (fun _ (_ : Except Error β) => False) trace r' := .of_smooth h
  exact hfirst.append h' fun _ _ hfalse => hfalse.elim

/-- An action that ends with the first error aborts on each. -/
theorem Aborts.of_ended (h : Ended trace r) : Aborts fatal cleanup Raises trace r := by
  cases r with
  | ok a => exact .of_smooth h
  | error e =>
    obtain ⟨before, op, rfl, hbefore⟩ := h
    refine Aborts.after_smooth hbefore ⟨List.pairwise_singleton _ _, ?_⟩
    intro ev hev e' _ he'
    obtain rfl := List.mem_singleton.mp hev
    obtain rfl := Except.error.inj he'
    rfl

/-- A part that has returned has seen no fatal error. -/
theorem Aborts.after_ok {a : α} (h : Aborts fatal cleanup Raises trace (.ok a))
    (h' : Aborts fatal cleanup tells trace' r') :
    Aborts fatal cleanup tells (trace ++ trace') r' :=
  h.append h' fun _ _ htold => absurd htold (by simp [Raises])

/-- What raises has no result, of whatever type. -/
theorem Aborts.raised {e : Error}
    (h : Aborts fatal cleanup Raises trace (.error e : Except Error α)) :
    Aborts fatal cleanup Raises trace (.error e : Except Error β) := by
  refine ⟨h.after, fun ev hev e' hfatal he => ?_⟩
  rw [Except.error.inj (h.told ev hev e' hfatal he)]

theorem aborts_of_straight {S : Op → Prop} (h : Straight C S x) :
    wp C x (Aborts fatal cleanup Raises) :=
  wp_mono h fun _ _ hr => .of_ended hr.2

theorem aborts_call {op : Op} (hallowed : C.allowed op) :
    wp C (call op : Action Error Op Ret (Ret op)) (Aborts fatal cleanup Raises) :=
  aborts_of_straight (Straight.call (S := fun _ => True) hallowed trivial)

theorem aborts_pure (a : α) :
    wp C (Pure.pure a : Action Error Op Ret α) (Aborts fatal cleanup told) :=
  (wp_pure _ _).mpr .nil

theorem aborts_throw (e : Error) :
    wp C (MonadExcept.throw e : Action Error Op Ret α) (Aborts fatal cleanup told) :=
  (wp_throw _ _).mpr .nil

/-- A part whose result tells the error, and the rest that is told it. -/
theorem aborts_bind_told (hx : wp C x (Aborts fatal cleanup told))
    (hraises : ∀ e e', fatal e → told e (.error e') → tells e (.error e'))
    (hf : ∀ a, wp C (f a) fun trace r => Aborts fatal cleanup tells trace r ∧
      ∀ e, fatal e → told e (.ok a) → (∀ ev ∈ trace, cleanup ev.1) ∧ tells e r) :
    wp C (x >>= f) (Aborts fatal cleanup tells) := by
  refine (wp_bind _).mpr (wp_mono hx fun trace r hr => ?_)
  cases r with
  | ok a => exact wp_mono (hf a) fun trace' r' hr' => hr.append hr'.1 hr'.2
  | error e =>
    exact ⟨hr.after, fun ev hev e' hfatal he => hraises e' e hfatal (hr.told ev hev e' hfatal he)⟩

/-- A part that raises what it sees, and the rest. -/
theorem aborts_bind (hx : wp C x (Aborts fatal cleanup Raises))
    (hf : ∀ a, wp C (f a) (Aborts fatal cleanup tells))
    (htells : ∀ e, fatal e → tells e (.error e)) :
    wp C (x >>= f) (Aborts fatal cleanup tells) := by
  refine aborts_bind_told hx (fun e e' hfatal htold => ?_) fun a => wp_mono (hf a) fun _ _ hr => ?_
  · rw [Except.error.inj htold]
    exact htells e hfatal
  · exact ⟨hr, fun _ _ htold => absurd htold (by simp [Raises])⟩

theorem aborts_attempt (hx : wp C x (Aborts fatal cleanup Raises)) :
    wp C (attempt x) (Aborts fatal cleanup fun e r => r = .ok (.error e)) :=
  (wp_attempt _).mpr (wp_mono hx fun _ _ hr =>
    ⟨hr.after, fun ev hev e hfatal he => congrArg Except.ok (hr.told ev hev e hfatal he)⟩)

end Rules

end Action

end Action

end InferenceGateway.Library
