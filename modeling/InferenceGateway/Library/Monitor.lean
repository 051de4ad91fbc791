import InferenceGateway.Library.Straight

/-!
# Monitors

A monitor reads events one at a time. Each event takes it from one state to another or is
refused. That nothing a program does is refused is proved part by part, from the state in which
a part begins to the states in which it may end.
-/
namespace InferenceGateway.Library

abbrev Monitor (State Event : Type) := State → Event → Option State

namespace Monitor
section Acceptance
variable {State Event β : Type} {m : Monitor State Event} {s s' : State} {e : Event}
  {l l' : List Event}

/-- The state after these events, if none of them is refused. -/
def after (m : Monitor State Event) (s : State) (l : List Event) : Option State := l.foldlM m s

@[simp] theorem after_nil : m.after s [] = some s := rfl

theorem after_cons : m.after s (e :: l) = (m s e).bind fun s' => m.after s' l := rfl

theorem after_append : m.after s (l ++ l') = (m.after s l).bind fun s' => m.after s' l' :=
  List.foldlM_append

/-- Events that leave the state as it is. -/
theorem after_of_idle (h : ∀ e ∈ l, m s e = some s) : m.after s l = some s := by
  induction l with
  | nil => rfl
  | cons e l ih =>
    rw [List.forall_mem_cons] at h
    rw [after_cons, h.1]
    exact ih h.2

/-- What is accepted is accepted up to every point. -/
theorem exists_after_left (h : m.after s (l ++ l') = some s') : ∃ s₁, m.after s l = some s₁ := by
  rw [after_append] at h
  obtain ⟨s₁, hs₁, -⟩ := Option.bind_eq_some_iff.mp h
  exact ⟨s₁, hs₁⟩

/-- What the states record of each event, they record of all of them. -/
theorem record_append {record : State → List β} {entries : Event → List β}
    (h : m.after s l = some s')
    (hstep : ∀ s e s', m s e = some s' → record s' = record s ++ entries e) :
    record s' = record s ++ l.flatMap entries := by
  induction l generalizing s with
  | nil =>
    obtain rfl : s = s' := Option.some.inj h
    simp
  | cons e l ih =>
    rw [after_cons] at h
    obtain ⟨s₁, hs₁, hrest⟩ := Option.bind_eq_some_iff.mp h
    rw [ih hrest, hstep s e s₁ hs₁, List.flatMap_cons, List.append_assoc]

/-- From a state without records. -/
theorem record_after {record : State → List β} {entries : Event → List β}
    (h : m.after s l = some s') (hs : record s = [])
    (hstep : ∀ s e s', m s e = some s' → record s' = record s ++ entries e) :
    record s' = l.flatMap entries := by
  rw [record_append h hstep, hs, List.nil_append]

/-- What no event brings about unless it is of some kind, has been brought about by such an
event. -/
theorem exists_cause {P : State → Prop} {cause : Event → Prop}
    (hstep : ∀ s e s', m s e = some s' → P s' → P s ∨ cause e) (hs : ¬ P s)
    (h : m.after s l = some s') (hP : P s') : ∃ e ∈ l, cause e := by
  induction l generalizing s with
  | nil =>
    obtain rfl : s = s' := Option.some.inj h
    exact absurd hP hs
  | cons e l ih =>
    rw [after_cons] at h
    obtain ⟨s₁, hs₁, hrest⟩ := Option.bind_eq_some_iff.mp h
    by_cases hcause : cause e
    · exact ⟨e, List.mem_cons_self, hcause⟩
    · have hs₁' : ¬ P s₁ := fun hP₁ => (hstep s e s₁ hs₁ hP₁).elim hs hcause
      obtain ⟨e', he', hcause'⟩ := ih hs₁' hrest
      exact ⟨e', List.mem_cons_of_mem _ he', hcause'⟩

end Acceptance
end Monitor

/-! ## Watched actions -/

namespace Action
section Watched
variable {Error Op : Type} {Ret : Op → Type} {State α β : Type}
  {C : Program.Contract Op fun op => Except Error (Ret op)}
  {m : Monitor State (ActionEvent Error Op Ret)} {s : State} {x : Action Error Op Ret α}
  {f : α → Action Error Op Ret β} {Q : Except Error β → State → Prop}
  {R : Except Error α → State → Prop}

/-- From this state no event of the action is refused, and it ends like this. -/
def Watched (C : Program.Contract Op fun op => Except Error (Ret op))
    (m : Monitor State (ActionEvent Error Op Ret)) (s : State) (x : Action Error Op Ret α)
    (Q : Except Error α → State → Prop) : Prop :=
  wp C x fun trace r => ∃ s', m.after s trace = some s' ∧ Q r s'

namespace Watched

theorem pure {a : α} (h : R (.ok a) s) : Watched C m s (Pure.pure a) R := ⟨s, rfl, h⟩

theorem throw {e : Error} (h : R (.error e) s) :
    Watched C m s (MonadExcept.throw e : Action Error Op Ret α) R := ⟨s, rfl, h⟩

theorem mono {R' : Except Error α → State → Prop} (h : Watched C m s x R)
    (hR : ∀ r s', R r s' → R' r s') : Watched C m s x R' :=
  wp_mono h fun _ r ⟨s', hs', hr⟩ => ⟨s', hs', hR r s' hr⟩

/-- A part and the rest, from each state that it may return in. -/
theorem bind (hx : Watched C m s x R) (hraised : ∀ e s', R (.error e) s' → Q (.error e) s')
    (hf : ∀ a s', R (.ok a) s' → Watched C m s' (f a) Q) : Watched C m s (x >>= f) Q := by
  refine (wp_bind _).mpr (wp_mono hx fun trace r hr => ?_)
  obtain ⟨s₁, hs₁, hr⟩ := hr
  cases r with
  | error e => exact ⟨s₁, hs₁, hraised e s₁ hr⟩
  | ok a =>
    refine wp_mono (hf a s₁ hr) fun trace' r' hr' => ?_
    obtain ⟨s', hs', hr'⟩ := hr'
    refine ⟨s', ?_, hr'⟩
    rw [Monitor.after_append, hs₁]
    exact hs'

/-- One operation and the rest. -/
theorem perform {op : Op} {f : Ret op → Action Error Op Ret β} (hallowed : C.allowed op)
    (hraised : ∀ e, ∃ s', m s ⟨op, .error e⟩ = some s' ∧ Q (.error e) s')
    (hf : ∀ a, ∃ s', m s ⟨op, .ok a⟩ = some s' ∧ Watched C m s' (f a) Q) :
    Watched C m s (Action.call op >>= f) Q := by
  refine wp_call_bind hallowed (fun e _ => ?_) fun a _ => ?_
  · obtain ⟨s', hs', he⟩ := hraised e
    refine ⟨s', ?_, he⟩
    rw [Monitor.after_cons, hs']
    rfl
  · obtain ⟨s₁, hs₁, hrest⟩ := hf a
    refine wp_mono hrest fun trace r hr => ?_
    obtain ⟨s', hs', hr⟩ := hr
    refine ⟨s', ?_, hr⟩
    rw [Monitor.after_cons, hs₁]
    exact hs'

/-- A part whose operations leave the state as it is. -/
theorem idle {S : Op → Prop} (hx : Confined C S x)
    (hidle : ∀ op r, S op → m s ⟨op, r⟩ = some s) : Watched C m s x fun _ s' => s' = s :=
  wp_mono hx fun _ _ hops => ⟨s, Monitor.after_of_idle fun e he => hidle e.1 e.2 (hops e he), rfl⟩

/-- Such a part and the rest. -/
theorem idle_bind {S : Op → Prop} (hx : Confined C S x)
    (hidle : ∀ op r, S op → m s ⟨op, r⟩ = some s) (hraised : ∀ e, Q (.error e) s)
    (hf : ∀ a, Watched C m s (f a) Q) : Watched C m s (x >>= f) Q := by
  refine bind (idle hx hidle) (fun e s' hs' => ?_) fun a s' hs' => ?_
  · rw [hs']
    exact hraised e
  · rw [hs']
    exact hf a

end Watched
end Watched
end Action

end InferenceGateway.Library
