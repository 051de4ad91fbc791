import InferenceGateway.Library.Interleaving

/-!
# Projections of interleaved systems

One system may say more about the state than another does, and may run tasks that the other
leaves out. A projection is a view of the state under which every operation is one of the
smaller system, and which the hidden tasks do not change. What is reachable in the larger
system is then reachable in the smaller one, so what holds of the smaller one holds of it. The
operations may be looked at in good states only, if every state that is reached is good.
-/
namespace InferenceGateway.Library.Pool

variable {Tag Tag' State State' Op : Type} {Reply : Op → Type} {Result : Type}

/-- Operations whose replies are not looked at. -/
abbrev anyReplyTo (hidden : Op → Prop) : Program.Contract Op Reply := ⟨hidden, fun _ _ => True⟩

structure Projection (S : System Tag State Op Reply Result)
    (T : System Tag' State' Op Reply Result) where
  view : State → State'
  /-- The tag of a task in the smaller system, if it is in it. -/
  tag : Tag → Option Tag'
  /-- What the hidden tasks may do. -/
  hidden : Op → Prop
  good : State → Prop
  initial : view S.initial = T.initial
  starts : ∀ t t' p, tag t = some t' → S.starts t p → T.starts t' p
  aside : ∀ t p, tag t = none → S.starts t p →
    Program.wp (anyReplyTo hidden) p fun _ _ => True
  handle : ∀ s op r s', good s → S.handle s op r s' → T.handle (view s) op r (view s')
  unseen : ∀ s op r s', hidden op → S.handle s op r s' → view s' = view s
  drift : ∀ s s', S.drift s s' → view s' = view s ∨ T.drift (view s) (view s')

namespace Projection

variable {S : System Tag State Op Reply Result} {T : System Tag' State' Op Reply Result}
  (P : Projection S T)

/-- What is shown of a list of tagged things. -/
def shown {α : Type} (l : List (Tag × α)) : List (Tag' × α) :=
  l.filterMap fun x => (P.tag x.1).map fun t => (t, x.2)

def pool (w : Pool Tag State Op Reply Result) : Pool Tag' State' Op Reply Result :=
  ⟨P.view w.state, P.shown w.history, P.shown w.tasks⟩

variable {P} {α : Type} {t : Tag} {t' : Tag'}

@[simp] theorem shown_append (l l' : List (Tag × α)) :
    P.shown (l ++ l') = P.shown l ++ P.shown l' := List.filterMap_append

theorem shown_cons_of_some (h : P.tag t = some t') (a : α) (l : List (Tag × α)) :
    P.shown ((t, a) :: l) = (t', a) :: P.shown l := by
  simp [shown, h]

theorem shown_cons_of_none (h : P.tag t = none) (a : α) (l : List (Tag × α)) :
    P.shown ((t, a) :: l) = P.shown l := by
  simp [shown, h]

/-- A hidden task keeps to its operations. -/
theorem aside_of_reachable {w : Pool Tag State Op Reply Result} (h : Reachable S w) :
    ∀ task ∈ w.tasks, P.tag task.1 = none →
      Program.wp (anyReplyTo P.hidden) task.2 fun _ _ => True := by
  induction h with
  | initial => exact List.forall_mem_nil _
  | start h hstart ih =>
    refine List.forall_mem_append.mpr ⟨ih, List.forall_mem_singleton.mpr fun hnone => ?_⟩
    exact P.aside _ _ hnone hstart
  | perform h hhandle ih =>
    rw [List.forall_mem_append, List.forall_mem_cons] at ih ⊢
    exact ⟨ih.1, fun hnone => (ih.2.1 hnone).2 _ trivial, ih.2.2⟩
  | drift h hdrift ih => exact ih

/-- A reachable pool of the larger system shows a reachable pool of the smaller one. -/
theorem reachable {w : Pool Tag State Op Reply Result} (h : Reachable S w)
    (hnodup : (w.tasks.map Prod.fst).Nodup)
    (hgood : ∀ u, Reachable S u → (u.tasks.map Prod.fst).Nodup → P.good u.state) :
    Reachable T (P.pool w) := by
  induction h with
  | initial =>
    have hinitial : P.pool ⟨S.initial, [], []⟩ = ⟨T.initial, [], []⟩ := by
      rw [pool, P.initial]
      rfl
    rw [hinitial]
    exact .initial
  | @start w tag p h hstart ih =>
    have hbefore : (w.tasks.map Prod.fst).Nodup :=
      hnodup.sublist ((List.sublist_append_left _ _).map _)
    unfold pool at ih ⊢
    rw [shown_append]
    cases htag : P.tag tag with
    | none =>
      rw [shown_cons_of_none htag]
      simpa [shown] using ih hbefore
    | some tag' =>
      rw [shown_cons_of_some htag]
      exact (ih hbefore).start (P.starts _ _ _ htag hstart)
  | @perform state state' history tag op next r before after h hhandle ih =>
    have hsame : ((before ++ (tag, .perform op next) :: after).map Prod.fst).Nodup := by
      simpa using hnodup
    specialize ih hsame
    unfold pool at ih ⊢
    rw [shown_append] at ih
    rw [shown_append, shown_append]
    cases htag : P.tag tag with
    | none =>
      have hhidden : P.hidden op :=
        (aside_of_reachable h _ (List.mem_append_right _ List.mem_cons_self) htag).1
      rw [shown_cons_of_none htag] at ih
      rw [shown_cons_of_none htag, shown_cons_of_none htag, P.unseen _ _ _ _ hhidden hhandle]
      simpa [shown] using ih
    | some tag' =>
      rw [shown_cons_of_some htag] at ih
      rw [shown_cons_of_some htag, shown_cons_of_some htag]
      exact ih.perform (P.handle _ _ _ _ (hgood _ h hsame) hhandle)
  | @drift w state' h hdrift ih =>
    specialize ih hnodup
    obtain hsame | hdrift' := P.drift _ _ hdrift
    · unfold pool at ih ⊢
      rwa [hsame]
    · exact .drift ih hdrift'

end Projection

end InferenceGateway.Library.Pool
