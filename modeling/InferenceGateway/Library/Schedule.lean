import InferenceGateway.Library.Execution
import InferenceGateway.Library.Interleaving
import Mathlib.Data.List.Flatten
import Mathlib.Data.List.Nodup
import Mathlib.Data.List.Perm.Subperm

/-!
# Following one task of a pool

The events of one task in the history of a pool are a run of its program up to where it
is now, if no two tasks have the same tag. What an event has established holds until some
later event may break it. `turn` lets a task go on under a handler that decides every
reply, so that concrete schedules can be evaluated.
-/
namespace InferenceGateway.Library
open scoped List

/-! ## Conditions on the past -/

section Past
variable {α : Type} {J : List α → α → Prop} {past before after : List α}

/-- Every element meets a condition on all that comes before it. -/
def Justified (J : List α → α → Prop) (past : List α) : List α → Prop
  | [] => True
  | a :: l => J past a ∧ Justified J (past ++ [a]) l

theorem justified_append :
    Justified J past (before ++ after) ↔
      Justified J past before ∧ Justified J (past ++ before) after := by
  induction before generalizing past with
  | nil => simp [Justified]
  | cons a before ih => simp [Justified, ih, and_assoc]

theorem justified_of_forall (h : ∀ a ∈ after, ∀ later, J (past ++ later) a) :
    Justified J past after := by
  induction after generalizing past with
  | nil => trivial
  | cons a after ih =>
    rw [List.forall_mem_cons] at h
    refine ⟨by simpa using h.1 [], ih fun x hx later => ?_⟩
    rw [List.append_assoc]
    exact h.2 x hx _

/-- An element of a concatenation is in one of its two parts. -/
theorem append_eq_append_cons {a : α} {l l' : List α} (h : l ++ l' = before ++ a :: after) :
    (∃ rest, l = before ++ a :: rest ∧ after = rest ++ l') ∨
      ∃ rest, before = l ++ rest ∧ l' = rest ++ a :: after := by
  rcases List.append_eq_append_iff.mp h with ⟨rest, rfl, hrest⟩ | ⟨rest, rfl, hrest⟩
  · exact .inr ⟨rest, rfl, hrest⟩
  · rcases List.cons_eq_append_iff.mp hrest with ⟨rfl, rfl⟩ | ⟨rest', rfl, rfl⟩
    · exact .inr ⟨[], by simp, rfl⟩
    · exact .inl ⟨rest', rfl, rfl⟩

/-- Two elements of a list: one of them comes first, or they are the same. -/
theorem append_cons_eq_append_cons {before' after' : List α} {a a' : α}
    (h : before ++ a :: after = before' ++ a' :: after') :
    (∃ mid, before' = before ++ a :: mid ∧ after = mid ++ a' :: after') ∨
    (before = before' ∧ a = a' ∧ after = after') ∨
    ∃ mid, before = before' ++ a' :: mid ∧ after' = mid ++ a :: after := by
  obtain ⟨mid, hbefore, hafter⟩ | ⟨mid, hbefore, hafter⟩ := append_eq_append_cons h
  · exact .inr (.inr ⟨mid, hbefore, hafter⟩)
  · cases mid with
    | nil =>
      obtain ⟨rfl, rfl⟩ := List.cons.inj hafter
      exact .inr (.inl ⟨(hbefore.trans (List.append_nil _)).symm, rfl, rfl⟩)
    | cons b mid =>
      obtain ⟨rfl, rfl⟩ := List.cons.inj hafter
      exact .inl ⟨mid, hbefore, rfl⟩

theorem Justified.split {a : α} (h : Justified J [] (before ++ a :: after)) : J before a :=
  (justified_append.mp h).2.1

end Past

namespace Program

variable {Op : Type} {Reply : Op → Type} {α : Type}

/-- After these events the program goes on as the other one. -/
inductive Follows : Program Op Reply α → List (Event Op Reply) → Program Op Reply α → Prop
  | refl (p : Program Op Reply α) : Follows p [] p
  | cons {op : Op} {next : Reply op → Program Op Reply α} {r : Reply op}
      {trace : List (Event Op Reply)} {q : Program Op Reply α} (h : Follows (next r) trace q) :
      Follows (.perform op next) (⟨op, r⟩ :: trace) q

variable {C : Contract Op Reply} {p q : Program Op Reply α} {trace : List (Event Op Reply)}
  {Q : List (Event Op Reply) → α → Prop}

/-- Every event of a run has the answer to its past. -/
theorem run_answered (answer : List (Event Op Reply) → (op : Op) → Reply op)
    (past : List (Event Op Reply)) (p : Program Op Reply α) :
    Justified (fun past e => e.2 = answer past e.1) past (run answer past p).1 := by
  induction p generalizing past with
  | pure a => trivial
  | perform op next ih => exact ⟨rfl, ih _ _⟩

theorem Follows.snoc {op : Op} {next : Reply op → Program Op Reply α}
    (h : Follows p trace (.perform op next)) (r : Reply op) :
    Follows p (trace ++ [⟨op, r⟩]) (next r) := by
  generalize hq : Program.perform op next = q at h
  induction h with
  | refl p =>
    subst hq
    exact .cons (.refl _)
  | cons h ih => exact .cons (ih hq)

/-- The rest of the program meets the rest of what is asked of it. -/
theorem Follows.wp (h : Follows p trace q) (hwp : wp C p Q)
    (hkept : ∀ e ∈ trace, C.promised e.1 e.2) : wp C q fun rest a => Q (trace ++ rest) a := by
  induction h generalizing Q with
  | refl p => exact hwp
  | cons h ih =>
    rw [List.forall_mem_cons] at hkept
    exact ih (hwp.2 _ hkept.1) hkept.2

/-- The operations performed so far were allowed. -/
theorem Follows.allowed (h : Follows p trace q) (hwp : Program.wp C p Q)
    (hkept : ∀ e ∈ trace, C.promised e.1 e.2) : ∀ e ∈ trace, C.allowed e.1 := by
  induction h generalizing Q with
  | refl p => exact fun e he => nomatch he
  | cons h ih =>
    rw [List.forall_mem_cons] at hkept ⊢
    exact ⟨hwp.1, ih (hwp.2 _ hkept.1) hkept.2⟩

/-- A program that has ended meets the postcondition. -/
theorem Follows.ended {a : α} (h : Follows p trace (.pure a)) (hwp : Program.wp C p Q)
    (hkept : ∀ e ∈ trace, C.promised e.1 e.2) : Q trace a := by
  have hend : Q (trace ++ []) a := h.wp hwp hkept
  rwa [List.append_nil] at hend

/-- Some end is still possible. -/
theorem Follows.exists_end (h : Follows p trace q) (hwp : Program.wp C p Q)
    (hkept : ∀ e ∈ trace, C.promised e.1 e.2) (hreply : ∀ op, ∃ r, C.promised op r) :
    ∃ rest a, Q (trace ++ rest) a :=
  wp_exists hreply (h.wp hwp hkept)

/-- What every event of the program is justified by, every event so far is. -/
theorem Follows.justified {J : List (Event Op Reply) → Event Op Reply → Prop}
    (h : Follows p trace q) (hwp : Program.wp C p fun trace _ => Justified J [] trace)
    (hkept : ∀ e ∈ trace, C.promised e.1 e.2) (hreply : ∀ op, ∃ r, C.promised op r) :
    Justified J [] trace := by
  obtain ⟨rest, a, hall⟩ := h.exists_end hwp hkept hreply
  exact (justified_append.mp hall).1

end Program

namespace Pool

variable {Tag State Op : Type} {Reply : Op → Type} {Result : Type}

/-! ## The events of one task -/

section Own
variable [DecidableEq Tag]

def own (tag : Tag) (history : List (Tag × Program.Event Op Reply)) :
    List (Program.Event Op Reply) :=
  history.filterMap fun e => if e.1 = tag then some e.2 else none

variable {tag : Tag} {history history' : List (Tag × Program.Event Op Reply)}
  {e : Program.Event Op Reply}

@[simp] theorem own_nil : own tag ([] : List (Tag × Program.Event Op Reply)) = [] := rfl

@[simp] theorem own_append : own tag (history ++ history') = own tag history ++ own tag history' :=
  List.filterMap_append

@[simp] theorem own_cons_self : own tag ((tag, e) :: history) = e :: own tag history := by
  simp [own]

theorem own_cons_of_ne {tag' : Tag} (h : tag' ≠ tag) :
    own tag ((tag', e) :: history) = own tag history := by
  simp [own, h]

theorem mem_own : e ∈ own tag history ↔ (tag, e) ∈ history := by
  simp [own]

theorem own_eq_nil (h : ∀ e ∈ history, e.1 ≠ tag) : own tag history = [] :=
  List.filterMap_eq_nil_iff.mpr fun e he => if_neg (h e he)

theorem own_eq_map_filter :
    own tag history = (history.filter fun e => e.1 = tag).map Prod.snd := by
  induction history with
  | nil => rfl
  | cons e history ih => by_cases h : e.1 = tag <;> simp_all [own]

/-- The events of all tasks are those of the history. -/
theorem perm_own {tags : List Tag} (hnodup : tags.Nodup) (h : ∀ e ∈ history, e.1 ∈ tags) :
    (tags.flatMap fun tag => own tag history).Perm (history.map Prod.snd) := by
  induction tags generalizing history with
  | nil => simp [List.eq_nil_iff_forall_not_mem.mpr fun e he => nomatch h e he]
  | cons tag tags ih =>
    obtain ⟨hnot, hnodup⟩ := List.nodup_cons.mp hnodup
    let others := history.filter fun e => !decide (e.1 = tag)
    have hothers : ∀ tag' ∈ tags, own tag' history = own tag' others := by
      intro tag' htag'
      have hne : tag' ≠ tag := fun heq => hnot (heq ▸ htag')
      rw [own_eq_map_filter, own_eq_map_filter, List.filter_filter]
      refine congrArg _ (List.filter_congr fun e _ => ?_)
      by_cases heq : e.1 = tag' <;> simp [heq, hne]
    have hrest : (tags.flatMap fun tag => own tag others).Perm (others.map Prod.snd) := by
      refine ih hnodup fun e he => ?_
      obtain ⟨hmem, hne⟩ := List.mem_filter.mp he
      obtain heq | hmem := List.mem_cons.mp (h e hmem)
      · simp [heq] at hne
      · exact hmem
    rw [List.flatMap_cons, own_eq_map_filter, List.flatMap_congr hothers]
    refine (hrest.append_left _).trans ?_
    rw [← List.map_append]
    exact (List.filter_append_perm _ _).map _

/-- What the events of each task give, with regard to the task, all events give together. -/
theorem perm_flatMap_own {α : Type} (f : Tag → Program.Event Op Reply → List α) {tags : List Tag}
    (hnodup : tags.Nodup) (h : ∀ e ∈ history, e.1 ∈ tags) :
    (tags.flatMap fun tag => (own tag history).flatMap (f tag)).Perm
      (history.flatMap fun e => f e.1 e.2) := by
  induction history with
  | nil => simp
  | cons e history ih =>
    rw [List.forall_mem_cons] at h
    have hothers : ∀ others : List Tag, e.1 ∉ others →
        (others.flatMap fun tag => (own tag (e :: history)).flatMap (f tag)) =
          others.flatMap fun tag => (own tag history).flatMap (f tag) := fun others hnot =>
      List.flatMap_congr fun tag htag => by
        rw [own_cons_of_ne fun heq : e.1 = tag => hnot (heq ▸ htag)]
    have hrest := ih h.2
    obtain ⟨before, after, rfl⟩ := List.append_of_mem h.1
    obtain ⟨hbefore, hafter⟩ : e.1 ∉ before ∧ e.1 ∉ after := by
      simpa [not_or] using (List.nodup_middle.mp hnodup).notMem
    rw [List.flatMap_append, List.flatMap_cons] at hrest ⊢
    rw [hothers before hbefore, hothers after hafter, own_cons_self, List.flatMap_cons,
      List.flatMap_cons, List.append_assoc]
    exact (List.perm_append_comm_assoc ..).trans (hrest.append_left _)

/-- What each task gives less of, all tasks together give less of. -/
theorem subperm_of_own {α : Type} (f g : Tag → Program.Event Op Reply → List α) {tags : List Tag}
    (hnodup : tags.Nodup) (h : ∀ e ∈ history, e.1 ∈ tags)
    (hown : ∀ tag ∈ tags,
      ((own tag history).flatMap (f tag)).Sublist ((own tag history).flatMap (g tag))) :
    (history.flatMap fun e => f e.1 e.2).Subperm (history.flatMap fun e => g e.1 e.2) := by
  have hf := perm_flatMap_own f hnodup h
  have hg := perm_flatMap_own g hnodup h
  refine hf.symm.subperm.trans (List.Subperm.trans ?_ hg.subperm)
  exact (List.Sublist.flatMap_right _ hown).subperm

/-- What each task gives as much of, all tasks together give as much of. -/
theorem perm_of_own {α : Type} (f g : Tag → Program.Event Op Reply → List α) {tags : List Tag}
    (hnodup : tags.Nodup) (h : ∀ e ∈ history, e.1 ∈ tags)
    (hown : ∀ tag ∈ tags, (own tag history).flatMap (f tag) = (own tag history).flatMap (g tag)) :
    (history.flatMap fun e => f e.1 e.2).Perm (history.flatMap fun e => g e.1 e.2) := by
  refine (perm_flatMap_own f hnodup h).symm.trans (List.Perm.trans ?_ (perm_flatMap_own g hnodup h))
  exact .of_eq (List.flatMap_congr hown)

/-- Where a task has performed something, the history can be split too. -/
theorem exists_split_of_own {before after : List (Program.Event Op Reply)}
    (h : own tag history = before ++ e :: after) :
    ∃ earlier later, history = earlier ++ (tag, e) :: later ∧ own tag earlier = before ∧
      own tag later = after := by
  obtain ⟨earlier, rest, rfl, hbefore, hrest⟩ := List.filterMap_eq_append_iff.mp h
  obtain ⟨others, e', later, rfl, hothers, he, hlater⟩ := List.filterMap_eq_cons_iff.mp hrest
  obtain ⟨htag, rfl⟩ : e'.1 = tag ∧ e'.2 = e := by simpa using he
  subst htag
  refine ⟨earlier ++ others, later, by simp, ?_, hlater⟩
  rw [own_append, show own e'.1 others = [] from List.filterMap_eq_nil_iff.mpr hothers,
    List.append_nil]
  exact hbefore

end Own

variable {S : System Tag State Op Reply Result} {w : Pool Tag State Op Reply Result}

/-- Every event in the history belongs to a task. -/
theorem Reachable.mem_tags (h : Reachable S w) : ∀ e ∈ w.history, e.1 ∈ w.tasks.map Prod.fst := by
  induction h with
  | initial => exact fun e he => nomatch he
  | start h hstart ih =>
    intro e he
    rw [List.map_append]
    exact List.mem_append_left _ (ih e he)
  | perform h hhandle ih =>
    refine List.forall_mem_append.mpr ⟨fun e he => ?_, fun e he => ?_⟩
    · simpa using ih e he
    · obtain rfl := List.mem_singleton.mp he
      simp
  | drift h hdrift ih => exact ih

/-- Each task has started as its program and has followed it through its own events. -/
theorem Reachable.follows [DecidableEq Tag] (h : Reachable S w)
    (hnodup : (w.tasks.map Prod.fst).Nodup) :
    ∀ task ∈ w.tasks, ∃ p, S.starts task.1 p ∧ p.Follows (own task.1 w.history) task.2 := by
  induction h with
  | initial => exact fun task htask => nomatch htask
  | @start w tag p h hstart ih =>
    rw [List.map_append, List.nodup_append] at hnodup
    obtain ⟨hold, -, hdisjoint⟩ := hnodup
    refine List.forall_mem_append.mpr ⟨ih hold, fun task htask => ?_⟩
    obtain rfl := List.mem_singleton.mp htask
    have hnone : own tag w.history = [] :=
      own_eq_nil fun e he => hdisjoint _ (h.mem_tags e he) _ (by simp)
    exact ⟨p, hstart, hnone ▸ .refl p⟩
  | @perform state state' history tag op next r before after h hhandle ih =>
    have htags : (before ++ (tag, next r) :: after).map Prod.fst =
        (before ++ (tag, Program.perform op next) :: after).map Prod.fst := by simp
    have htasks := ih (htags ▸ hnodup)
    have hother : ∀ task ∈ before ++ after, task.1 ≠ tag := by
      intro task htask heq
      rw [List.map_append, List.map_cons, List.nodup_middle, List.nodup_cons] at hnodup
      refine hnodup.1 ?_
      rw [← List.map_append]
      exact List.mem_map.mpr ⟨task, htask, heq⟩
    have hkept : ∀ task ∈ before ++ after, ∃ p, S.starts task.1 p ∧
        p.Follows (own task.1 (history ++ [(tag, ⟨op, r⟩)])) task.2 := by
      intro task htask
      rw [own_append, own_cons_of_ne (hother task htask).symm, own_nil, List.append_nil]
      refine htasks task ?_
      rw [List.mem_append] at htask ⊢
      exact htask.imp_right (List.mem_cons_of_mem _)
    intro task htask
    rw [List.mem_append, List.mem_cons] at htask
    obtain hbefore | rfl | hafter := htask
    · exact hkept task (List.mem_append_left _ hbefore)
    · obtain ⟨p, hstart, hfollows⟩ := htasks _ (List.mem_append_right _ List.mem_cons_self)
      refine ⟨p, hstart, ?_⟩
      rw [own_append, own_cons_self, own_nil]
      exact hfollows.snoc r
    · exact hkept task (List.mem_append_right _ hafter)
  | drift h hdrift ih => exact ih hnodup

/-- What every operation keeps of the state and the history holds in every reachable pool. -/
theorem Reachable.invariant {Inv : State → List (Tag × Program.Event Op Reply) → Prop}
    (hinitial : Inv S.initial [])
    (hhandle : ∀ tag state history op r state', Inv state history → S.handle state op r state' →
      Inv state' (history ++ [(tag, ⟨op, r⟩)]))
    (hdrift : ∀ state history state', Inv state history → S.drift state state' →
      Inv state' history) (h : Reachable S w) : Inv w.state w.history := by
  induction h with
  | initial => exact hinitial
  | start h hstart ih => exact ih
  | perform h hh ih => exact hhandle _ _ _ _ _ _ ih hh
  | drift h hd ih => exact hdrift _ _ _ ih hd

/-! ## What an event has established -/

/-- What every event establishes holds of the state, or some later event has broken it. -/
theorem Reachable.kept_or_broken (P : Tag × Program.Event Op Reply → State → Prop)
    (breaks : State → Tag × Program.Event Op Reply → Prop)
    (hset : ∀ tag op r state state', S.handle state op r state' → P (tag, ⟨op, r⟩) state')
    (hkeep : ∀ e tag op r state state', P e state → ¬ breaks state (tag, ⟨op, r⟩) →
      S.handle state op r state' → P e state')
    (hdrift : ∀ e state state', P e state → S.drift state state' → P e state')
    (h : Reachable S w) :
    ∀ before e after, w.history = before ++ e :: after → P e w.state ∨
      ∃ u since breaking later, Reachable S u ∧ u.history = before ++ e :: since ∧
        after = since ++ breaking :: later ∧ breaks u.state breaking := by
  induction h with
  | initial => exact fun before e after heq => absurd heq (by simp)
  | start h hstart ih => exact ih
  | @perform state state' history tag op next r _ _ h hhandle ih =>
    intro before e after heq
    obtain rfl | ⟨after, last, rfl⟩ := List.eq_nil_or_concat' after
    · obtain ⟨-, hlast⟩ := List.append_inj' heq rfl
      obtain rfl := List.singleton_inj.mp hlast
      exact .inl (hset tag op r state state' hhandle)
    · rw [← List.cons_append, ← List.append_assoc] at heq
      obtain ⟨hhistory, hlast⟩ := List.append_inj' heq rfl
      obtain rfl := List.singleton_inj.mp hlast
      obtain hkept | ⟨u, since, breaking, later, hu, hsince, rfl, hbreaks⟩ :=
        ih before e after hhistory
      · by_cases hbreaks : breaks state (tag, ⟨op, r⟩)
        · exact .inr ⟨_, after, _, [], h, hhistory, rfl, hbreaks⟩
        · exact .inl (hkeep e tag op r _ _ hkept hbreaks hhandle)
      · refine .inr ⟨u, since, breaking, later ++ [(tag, ⟨op, r⟩)], hu, hsince, ?_, hbreaks⟩
        rw [List.append_assoc, List.cons_append]
  | drift h hd ih =>
    exact fun before e after heq => (ih before e after heq).imp_left fun hP => hdrift e _ _ hP hd

/-- What every event establishes holds of the state as long as no later event breaks it. -/
theorem Reachable.since (P : Tag × Program.Event Op Reply → State → Prop)
    (breaks : Tag × Program.Event Op Reply → Prop)
    (hset : ∀ tag op r state state', S.handle state op r state' → P (tag, ⟨op, r⟩) state')
    (hkeep : ∀ e tag op r state state', P e state → ¬ breaks (tag, ⟨op, r⟩) →
      S.handle state op r state' → P e state')
    (hdrift : ∀ e state state', P e state → S.drift state state' → P e state')
    (h : Reachable S w) {before after : List (Tag × Program.Event Op Reply)}
    {e : Tag × Program.Event Op Reply} (hhistory : w.history = before ++ e :: after)
    (hafter : ∀ e' ∈ after, ¬ breaks e') : P e w.state := by
  obtain hkept | ⟨-, since, breaking, later, -, -, rfl, hbreaks⟩ :=
    h.kept_or_broken P (fun _ => breaks) hset hkeep hdrift before e after hhistory
  · exact hkept
  · exact absurd hbreaks (hafter breaking (by simp))

/-- What every event establishes for good. -/
theorem Reachable.forall_mem_history (P : Tag × Program.Event Op Reply → Prop)
    (hset : ∀ tag op r state state', S.handle state op r state' → P (tag, ⟨op, r⟩))
    (h : Reachable S w) : ∀ e ∈ w.history, P e := by
  intro e he
  obtain ⟨before, after, hhistory⟩ := List.append_of_mem he
  exact h.since (fun e _ => P e) (fun _ => False) hset (fun _ _ _ _ _ _ hP _ _ => hP)
    (fun _ _ _ hP _ => hP) hhistory fun _ _ => id

/-- Every event of the history was performed in a reachable pool. -/
theorem Reachable.exists_performed (h : Reachable S w)
    {before after : List (Tag × Program.Event Op Reply)} {tag : Tag} {op : Op} {r : Reply op}
    (hhistory : w.history = before ++ (tag, ⟨op, r⟩) :: after) :
    ∃ u state', Reachable S u ∧ u.history = before ∧ S.handle u.state op r state' := by
  induction h generalizing after with
  | initial => exact absurd hhistory (by simp)
  | start h hstart ih => exact ih hhistory
  | @perform state state' history tag' op' next r' _ _ h hhandle ih =>
    obtain rfl | ⟨after, last, rfl⟩ := List.eq_nil_or_concat' after
    · obtain ⟨rfl, hlast⟩ := List.append_inj' hhistory rfl
      obtain ⟨-, heq⟩ := Prod.mk.inj (List.singleton_inj.mp hlast)
      obtain ⟨rfl, hr⟩ := Sigma.mk.inj heq
      obtain rfl := eq_of_heq hr
      exact ⟨_, state', h, rfl, hhandle⟩
    · rw [← List.cons_append, ← List.append_assoc] at hhistory
      exact ih (List.append_inj' hhistory rfl).1
  | drift h hd ih => exact ih hhistory

/-- Nothing changes before the first operation. -/
theorem Reachable.state_eq (hdrift : ∀ state state', ¬ S.drift state state') (h : Reachable S w)
    (hnone : w.history = []) : w.state = S.initial := by
  induction h with
  | initial => rfl
  | start h hstart ih => exact ih hnone
  | perform h hhandle ih => simp at hnone
  | drift h hd ih => exact absurd hd (hdrift _ _)

/-- The last element with a property. -/
theorem exists_last {α : Type} (p : α → Prop) {l : List α} (h : ∃ x ∈ l, p x) :
    ∃ before x after, l = before ++ x :: after ∧ p x ∧ ∀ y ∈ after, ¬ p y := by
  induction l with
  | nil => simp at h
  | cons a l ih =>
    by_cases hlater : ∃ x ∈ l, p x
    · obtain ⟨before, x, after, rfl, hx⟩ := ih hlater
      exact ⟨a :: before, x, after, rfl, hx⟩
    · refine ⟨[], a, l, rfl, ?_, by simpa using hlater⟩
      obtain ⟨x, hx, hpx⟩ := h
      obtain rfl | hx := List.mem_cons.mp hx
      · exact hpx
      · exact absurd ⟨x, hx, hpx⟩ hlater

/-! ## Runs whose steps meet a condition -/

/-- The pools that can be reached by steps that meet a condition on the pool before them. -/
inductive ReachableUnder (S : System Tag State Op Reply Result)
    (Guard : Pool Tag State Op Reply Result → Tag → Op → Prop) :
    Pool Tag State Op Reply Result → Prop
  | initial : ReachableUnder S Guard ⟨S.initial, [], []⟩
  | start {w : Pool Tag State Op Reply Result} {tag : Tag} {p : Program Op Reply Result}
      (h : ReachableUnder S Guard w) (hstart : S.starts tag p) :
      ReachableUnder S Guard { w with tasks := w.tasks ++ [(tag, p)] }
  | perform {state state' : State} {history : List (Tag × Program.Event Op Reply)} {tag : Tag}
      {op : Op} {next : Reply op → Program Op Reply Result} {r : Reply op}
      {before after : List (Tag × Program Op Reply Result)}
      (h : ReachableUnder S Guard ⟨state, history, before ++ (tag, .perform op next) :: after⟩)
      (hguard : Guard ⟨state, history, before ++ (tag, .perform op next) :: after⟩ tag op)
      (hhandle : S.handle state op r state') :
      ReachableUnder S Guard
        ⟨state', history ++ [(tag, ⟨op, r⟩)], before ++ (tag, next r) :: after⟩
  | drift {w : Pool Tag State Op Reply Result} {state' : State} (h : ReachableUnder S Guard w)
      (hdrift : S.drift w.state state') : ReachableUnder S Guard { w with state := state' }

theorem ReachableUnder.reachable {Guard : Pool Tag State Op Reply Result → Tag → Op → Prop}
    (h : ReachableUnder S Guard w) : Reachable S w := by
  induction h with
  | initial => exact .initial
  | start h hstart ih => exact .start ih hstart
  | perform h hguard hhandle ih => exact .perform ih hhandle
  | drift h hdrift ih => exact .drift ih hdrift

/-! ## Schedules -/

/-- Whether the program has ended. -/
def isPure {α : Type} : Program Op Reply α → Bool
  | .pure _ => true
  | .perform .. => false

theorem isPure_iff {α : Type} {p : Program Op Reply α} : isPure p = true ↔ ∃ a, p = .pure a := by
  cases p <;> simp [isPure]

/-- One operation of the task at this place. -/
def turn (serve : Program.Handler Op Reply State) (w : Pool Tag State Op Reply Result) (i : Nat) :
    Pool Tag State Op Reply Result :=
  match w.tasks[i]? with
  | some (tag, .perform op next) =>
    ⟨(serve w.state op).2, w.history ++ [(tag, ⟨op, (serve w.state op).1⟩)],
      w.tasks.set i (tag, next (serve w.state op).1)⟩
  | _ => w

/-- The tasks take turns in this order. -/
def schedule (serve : Program.Handler Op Reply State) (w : Pool Tag State Op Reply Result)
    (turns : List Nat) : Pool Tag State Op Reply Result :=
  turns.foldl (turn serve) w

variable {serve : Program.Handler Op Reply State}

/-- A turn performs the next operation of a task, or there is none. -/
theorem turn_cases (serve : Program.Handler Op Reply State)
    (w : Pool Tag State Op Reply Result) (i : Nat) :
    w.turn serve i = w ∨ ∃ tag op next before after,
      w.tasks = before ++ (tag, .perform op next) :: after ∧
      w.turn serve i = ⟨(serve w.state op).2, w.history ++ [(tag, ⟨op, (serve w.state op).1⟩)],
        before ++ (tag, next (serve w.state op).1) :: after⟩ := by
  unfold Pool.turn
  split
  · rename_i tag op next hget
    obtain ⟨hlt, hget⟩ := List.getElem?_eq_some_iff.mp hget
    refine .inr ⟨tag, op, next, w.tasks.take i, w.tasks.drop (i + 1), ?_, ?_⟩
    · rw [← hget, List.getElem_cons_drop, List.take_append_drop]
    · rw [List.set_eq_take_append_cons_drop, if_pos hlt]
  · exact .inl rfl

theorem Reachable.turn
    (hserve : ∀ state op, S.handle state op (serve state op).1 (serve state op).2)
    (h : Reachable S w) (i : Nat) : Reachable S (w.turn serve i) := by
  obtain hsame | ⟨tag, op, next, before, after, htasks, hturn⟩ := turn_cases serve w i
  · rwa [hsame]
  · obtain ⟨state, history, tasks⟩ := w
    subst htasks
    rw [hturn]
    exact .perform h (hserve state op)

theorem Reachable.schedule
    (hserve : ∀ state op, S.handle state op (serve state op).1 (serve state op).2)
    (h : Reachable S w) (turns : List Nat) : Reachable S (w.schedule serve turns) := by
  induction turns generalizing w with
  | nil => exact h
  | cons i turns ih => exact ih (h.turn hserve i)

/-- Every operation of the schedule is granted when its turn comes. -/
def granted (grants : Pool Tag State Op Reply Result → Tag → Op → Bool)
    (serve : Program.Handler Op Reply State) : Pool Tag State Op Reply Result → List Nat → Bool
  | _, [] => true
  | w, i :: turns =>
    (match w.tasks[i]? with
      | some (tag, .perform op _) => grants w tag op
      | _ => true) && granted grants serve (w.turn serve i) turns

/-- A schedule in which a task takes a turn only when its operation may be performed. -/
theorem ReachableUnder.schedule_of_granted
    {Guard : Pool Tag State Op Reply Result → Tag → Op → Prop}
    {grants : Pool Tag State Op Reply Result → Tag → Op → Bool}
    (hserve : ∀ w tag op, grants w tag op →
      Guard w tag op ∧ S.handle w.state op (serve w.state op).1 (serve w.state op).2)
    (h : ReachableUnder S Guard w) {turns : List Nat} (hgranted : w.granted grants serve turns) :
    ReachableUnder S Guard (w.schedule serve turns) := by
  induction turns generalizing w with
  | nil => exact h
  | cons i turns ih =>
    obtain ⟨hfirst, hlater⟩ := Bool.and_eq_true_iff.mp hgranted
    refine ih ?_ hlater
    unfold Pool.turn
    split
    · rename_i tag op next hget
      rw [hget] at hfirst
      obtain ⟨state, history, tasks⟩ := w
      obtain ⟨hlt, hget⟩ := List.getElem?_eq_some_iff.mp hget
      have htasks : tasks = tasks.take i ++ (tag, .perform op next) :: tasks.drop (i + 1) := by
        rw [← hget, List.getElem_cons_drop, List.take_append_drop]
      obtain ⟨hguard, hhandle⟩ := hserve _ tag op hfirst
      rw [htasks] at h hguard
      rw [List.set_eq_take_append_cons_drop, if_pos hlt]
      exact .perform h hguard hhandle
    · exact h

theorem history_schedule (turns : List Nat) : w.history <+: (w.schedule serve turns).history := by
  induction turns generalizing w with
  | nil => exact List.prefix_rfl
  | cons i turns ih =>
    refine List.IsPrefix.trans ?_ ih
    obtain hsame | ⟨tag, op, next, before, after, htasks, hturn⟩ := turn_cases serve w i
    · rw [hsame]
    · rw [hturn]
      exact List.prefix_append _ _

/-- Tasks keep their tags. -/
theorem map_fst_schedule (turns : List Nat) :
    (w.schedule serve turns).tasks.map Prod.fst = w.tasks.map Prod.fst := by
  induction turns generalizing w with
  | nil => rfl
  | cons i turns ih =>
    refine ih.trans ?_
    obtain hsame | ⟨tag, op, next, before, after, htasks, hturn⟩ := turn_cases serve w i
    · rw [hsame]
    · rw [hturn, htasks, List.map_append, List.map_append, List.map_cons, List.map_cons]

/-- A schedule that only performs operations which always meet the condition. -/
theorem ReachableUnder.schedule {Guard : Pool Tag State Op Reply Result → Tag → Op → Prop}
    (hserve : ∀ state op, S.handle state op (serve state op).1 (serve state op).2)
    (h : ReachableUnder S Guard w) (turns : List Nat)
    (hguard : ∀ e ∈ (w.schedule serve turns).history, ∀ w, Guard w e.1 e.2.1) :
    ReachableUnder S Guard (w.schedule serve turns) := by
  induction turns generalizing w with
  | nil => exact h
  | cons i turns ih =>
    refine ih ?_ hguard
    have hlater : (w.turn serve i).history <+: ((w.turn serve i).schedule serve turns).history :=
      history_schedule turns
    obtain hsame | ⟨tag, op, next, before, after, htasks, hturn⟩ := turn_cases serve w i
    · rwa [hsame]
    · have hmem : (tag, ⟨op, (serve w.state op).1⟩) ∈ (w.turn serve i).history := by simp [hturn]
      have hnext := hguard _ (hlater.subset hmem)
      obtain ⟨state, history, tasks⟩ := w
      subst htasks
      rw [hturn]
      exact .perform h (hnext _) (hserve state op)

/-- One turn, whose operation meets the condition. -/
theorem ReachableUnder.turn {Guard : Pool Tag State Op Reply Result → Tag → Op → Prop}
    (hserve : ∀ state op, S.handle state op (serve state op).1 (serve state op).2)
    (h : ReachableUnder S Guard w) (i : Nat)
    (hguard : ∀ tag op next, (tag, .perform op next) ∈ w.tasks → Guard w tag op) :
    ReachableUnder S Guard (w.turn serve i) := by
  obtain hsame | ⟨tag, op, next, before, after, htasks, hturn⟩ := turn_cases serve w i
  · rwa [hsame]
  · obtain ⟨state, history, tasks⟩ := w
    subst htasks
    rw [hturn]
    exact .perform h (hguard tag op next (by simp)) (hserve state op)

/-- What a task keeps whatever it is replied, it keeps under a schedule. -/
theorem forall_schedule {P : Tag → Program Op Reply Result → Prop}
    (hkeep : ∀ tag op next r, P tag (.perform op next) → P tag (next r))
    (h : ∀ task ∈ w.tasks, P task.1 task.2) (turns : List Nat) :
    ∀ task ∈ (w.schedule serve turns).tasks, P task.1 task.2 := by
  induction turns generalizing w with
  | nil => exact h
  | cons i turns ih =>
    refine ih ?_
    obtain hsame | ⟨tag, op, next, before, after, htasks, hturn⟩ := turn_cases serve w i
    · rwa [hsame]
    · rw [htasks] at h
      rw [hturn]
      simp only [List.forall_mem_append, List.forall_mem_cons] at h ⊢
      exact ⟨h.1, hkeep tag op next _ h.2.1, h.2.2⟩

theorem Reachable.starts {tasks : List (Tag × Program Op Reply Result)}
    (h : Reachable S w) (hstarts : ∀ task ∈ tasks, S.starts task.1 task.2) :
    Reachable S { w with tasks := w.tasks ++ tasks } := by
  induction tasks generalizing w with
  | nil => simpa using h
  | cons task tasks ih =>
    rw [List.forall_mem_cons] at hstarts
    simpa using ih (h.start hstarts.1) hstarts.2

theorem ReachableUnder.starts {Guard : Pool Tag State Op Reply Result → Tag → Op → Prop}
    {tasks : List (Tag × Program Op Reply Result)} (h : ReachableUnder S Guard w)
    (hstarts : ∀ task ∈ tasks, S.starts task.1 task.2) :
    ReachableUnder S Guard { w with tasks := w.tasks ++ tasks } := by
  induction tasks generalizing w with
  | nil => simpa using h
  | cons task tasks ih =>
    rw [List.forall_mem_cons] at hstarts
    simpa using ih (h.start hstarts.1) hstarts.2

end Pool

end InferenceGateway.Library
