import Mathlib.Data.List.Induction

/-!
# Services and their histories

A service owns a state and answers one call at a time. Its history is the list of
calls together with the replies that were given. Properties of long-lived stores
are stated about the pair of a history and the state it led to, and are proved by
one induction rule: an invariant of that pair survives every further call.
-/
namespace InferenceGateway.Library

theorem concat_prefix_concat {α : Type} {before calls : List α} {d c : α} :
    before ++ [d] <+: calls ++ [c] ↔ (before = calls ∧ d = c) ∨ before ++ [d] <+: calls := by
  rw [List.prefix_concat_iff]
  simp

/-- A store that answers one call at a time. -/
structure Service (State Call Reply : Type) where
  initial : State
  serve : State → Call → Reply × State

namespace Service

variable {State Call Reply : Type} (S : Service State Call Reply)

/-- Serve one more call, remembering what was asked and what was answered. -/
def advance (r : State × List (Call × Reply)) (c : Call) : State × List (Call × Reply) :=
  ((S.serve r.1 c).2, r.2 ++ [(c, (S.serve r.1 c).1)])

/-- The state and the history after serving all calls from the initial state. -/
def run (calls : List Call) : State × List (Call × Reply) :=
  calls.foldl S.advance (S.initial, [])

def state (calls : List Call) : State := (S.run calls).1
def history (calls : List Call) : List (Call × Reply) := (S.run calls).2

@[simp] theorem state_nil : S.state [] = S.initial := rfl
@[simp] theorem history_nil : S.history [] = [] := rfl

@[simp] theorem state_concat (calls : List Call) (c : Call) :
    S.state (calls ++ [c]) = (S.serve (S.state calls) c).2 := by
  simp [state, run, advance]

@[simp] theorem history_concat (calls : List Call) (c : Call) :
    S.history (calls ++ [c]) = S.history calls ++ [(c, (S.serve (S.state calls) c).1)] := by
  simp [state, history, run, advance]

theorem map_fst_history (calls : List Call) : (S.history calls).map Prod.fst = calls := by
  induction calls using List.reverseRecOn with
  | nil => rfl
  | append_singleton calls c ih => simp [ih]

/-- Every call of the run meets a condition on the history and the state it finds. -/
def Along (Cond : List (Call × Reply) → State → Call → Prop) (calls : List Call) : Prop :=
  ∀ before c, before ++ [c] <+: calls → Cond (S.history before) (S.state before) c

theorem along_iff_take {Cond : List (Call × Reply) → State → Call → Prop} {calls : List Call} :
    S.Along Cond calls ↔ ∀ i : Fin calls.length,
      Cond (S.history (calls.take i)) (S.state (calls.take i)) calls[i] := by
  constructor
  · intro h i
    refine h _ _ ?_
    rw [Fin.getElem_fin, List.take_append_getElem]
    exact List.take_prefix _ _
  · rintro h before c ⟨after, rfl⟩
    have hlt : before.length < (before ++ [c] ++ after).length := by simp
    simpa using h ⟨before.length, hlt⟩

instance {Cond : List (Call × Reply) → State → Call → Prop}
    [∀ past s c, Decidable (Cond past s c)] (calls : List Call) :
    Decidable (S.Along Cond calls) :=
  decidable_of_iff _ S.along_iff_take.symm

theorem along_concat {Cond : List (Call × Reply) → State → Call → Prop} {calls : List Call}
    {c : Call} :
    S.Along Cond (calls ++ [c]) ↔
      S.Along Cond calls ∧ Cond (S.history calls) (S.state calls) c := by
  constructor
  · intro h
    exact ⟨fun before d hd => h before d (hd.trans (List.prefix_append _ _)),
      h calls c List.prefix_rfl⟩
  · rintro ⟨h, hlast⟩ before d hd
    obtain ⟨rfl, rfl⟩ | hpre := concat_prefix_concat.mp hd
    · exact hlast
    · exact h before d hpre

/-- An invariant of history and state that holds at the start and survives every
call holds after every sequence of calls. -/
theorem invariant (Inv : List (Call × Reply) → State → Prop) (start : Inv [] S.initial)
    (step : ∀ past s c, Inv past s → Inv (past ++ [(c, (S.serve s c).1)]) (S.serve s c).2)
    (calls : List Call) : Inv (S.history calls) (S.state calls) := by
  induction calls using List.reverseRecOn with
  | nil => exact start
  | append_singleton calls c ih => simpa using step _ _ c ih

/-- An invariant that survives every call made under a condition holds after every
run whose calls all meet it. -/
theorem invariant_along {Cond : List (Call × Reply) → State → Call → Prop}
    (Inv : List (Call × Reply) → State → Prop) (start : Inv [] S.initial)
    (step : ∀ past s c, Inv past s → Cond past s c →
      Inv (past ++ [(c, (S.serve s c).1)]) (S.serve s c).2)
    {calls : List Call} (h : S.Along Cond calls) : Inv (S.history calls) (S.state calls) := by
  induction calls using List.reverseRecOn with
  | nil => exact start
  | append_singleton calls c ih =>
    obtain ⟨hbefore, hlast⟩ := S.along_concat.mp h
    simpa using step _ _ c (ih hbefore) hlast

theorem Along.of_prefix {Cond : List (Call × Reply) → State → Call → Prop}
    {calls before : List Call} (h : S.Along Cond calls) (hp : before <+: calls) :
    S.Along Cond before :=
  fun before' c hc => h before' c (hc.trans hp)

/-- What the invariant gives at each call that meets the condition holds at every call
of a run whose calls all meet it. -/
theorem along_of_invariant (Cond Goal : List (Call × Reply) → State → Call → Prop)
    (Inv : List (Call × Reply) → State → Prop) (start : Inv [] S.initial)
    (step : ∀ past s c, Inv past s → Cond past s c →
      Inv (past ++ [(c, (S.serve s c).1)]) (S.serve s c).2)
    (goal : ∀ past s c, Inv past s → Cond past s c → Goal past s c)
    {calls : List Call} (h : S.Along Cond calls) : S.Along Goal calls := by
  intro before c hc
  have hbefore := h.of_prefix S ((List.prefix_append before [c]).trans hc)
  exact goal _ _ c (S.invariant_along Inv start step hbefore) (h before c hc)

/-- A property that each call either keeps or breaks holds of every state of a run exactly
when every call keeps it. -/
theorem always_iff_along (Holds : State → Prop) (Keeps : State → Call → Prop)
    (start : Holds S.initial)
    (step : ∀ calls c, Holds (S.state calls) →
      (Holds (S.serve (S.state calls) c).2 ↔ Keeps (S.state calls) c))
    (calls : List Call) :
    (∀ before, before <+: calls → Holds (S.state before)) ↔
      S.Along (fun _ s c => Keeps s c) calls := by
  induction calls using List.reverseRecOn with
  | nil =>
    refine iff_of_true (fun before hbefore => ?_) fun before c hc => ?_
    · rw [List.prefix_nil.mp hbefore]
      exact start
    · simp at hc
  | append_singleton calls c ih =>
    rw [along_concat, ← ih]
    constructor
    · intro h
      have hcalls := h calls (List.prefix_append _ _)
      refine ⟨fun before hbefore => h before (hbefore.trans (List.prefix_append _ _)), ?_⟩
      rw [← step calls c hcalls, ← state_concat]
      exact h _ List.prefix_rfl
    · rintro ⟨h, hkeeps⟩ before hbefore
      obtain rfl | hbefore := List.prefix_concat_iff.mp hbefore
      · rw [state_concat]
        exact (step calls c (h calls List.prefix_rfl)).mpr hkeeps
      · exact h before hbefore

/-- A property that each of the calls either keeps or loses for good holds after them
exactly when it held before and none of them lost it. -/
theorem survives_iff (Holds : State → Prop) (Loses : State → Call → Prop)
    (start calls : List Call)
    (step : ∀ s, ∀ c ∈ calls, Holds (S.serve s c).2 ↔ Holds s ∧ ¬ Loses s c) :
    Holds (S.state (start ++ calls)) ↔ Holds (S.state start) ∧
      ∀ mid c, mid ++ [c] <+: calls → ¬ Loses (S.state (start ++ mid)) c := by
  induction calls using List.reverseRecOn with
  | nil => simp
  | append_singleton calls c ih =>
    have hlast := step (S.state (start ++ calls)) c (List.mem_append_right _ List.mem_cons_self)
    have hbefore := ih fun s d hd => step s d (List.mem_append_left _ hd)
    rw [← List.append_assoc, state_concat, hlast, hbefore, and_assoc]
    refine and_congr_right fun _ => ⟨?_, ?_⟩
    · rintro ⟨hmid, hc⟩ mid d hd
      obtain ⟨rfl, rfl⟩ | hpre := concat_prefix_concat.mp hd
      · exact hc
      · exact hmid mid d hpre
    · intro h
      exact ⟨fun mid d hd => h mid d (hd.trans (List.prefix_append _ _)), h calls c List.prefix_rfl⟩

/-- A call that is served as from the start makes the service forget the calls before it. -/
theorem forgets {before : List Call} {c : Call}
    (h : S.serve (S.state before) c = S.serve S.initial c) (after : List Call) :
    S.state (before ++ c :: after) = S.state (c :: after) ∧
      S.history (before ++ c :: after) = S.history before ++ S.history (c :: after) := by
  induction after using List.reverseRecOn with
  | nil =>
    rw [state_concat, history_concat, h]
    exact ⟨(S.state_concat [] c).symm, congrArg _ (S.history_concat [] c).symm⟩
  | append_singleton after d ih =>
    obtain ⟨hstate, hhistory⟩ := ih
    rw [← List.cons_append, ← List.append_assoc, state_concat, state_concat, history_concat,
      history_concat, hstate, hhistory, List.append_assoc]
    exact ⟨rfl, rfl⟩

end Service

end InferenceGateway.Library
