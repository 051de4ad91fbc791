import InferenceGateway.Library.Schedule
import Mathlib.Logic.Relation

/-!
# Pools that drain

A program performs finitely many operations, whatever it gets as replies. So if, in every pool
that can be reached, some unfinished task may go on, then the tasks of a reachable pool come to
their ends, whichever of them go on and whatever they get as replies.
-/
namespace InferenceGateway.Library.Pool

variable {Tag State Op : Type} {Reply : Op → Type} {Result : Type}

/-- One of the tasks has performed its next operation. -/
def Shorter (tasks' tasks : List (Tag × Program Op Reply Result)) : Prop :=
  ∃ i tag op next r, tasks[i]? = some (tag, .perform op next) ∧
    tasks' = tasks.set i (tag, next r)

/-- A task in front of tasks that end, ends with them. -/
theorem acc_shorter_cons (tag : Tag) (p : Program Op Reply Result)
    {tasks : List (Tag × Program Op Reply Result)} (h : Acc Shorter tasks) :
    Acc Shorter ((tag, p) :: tasks) := by
  induction p generalizing tasks with
  | pure a =>
    induction h with
    | intro tasks _ ih =>
      refine ⟨_, fun tasks' ⟨i, tag', op, next, r, hget, heq⟩ => ?_⟩
      cases i with
      | zero => simp at hget
      | succ i =>
        subst heq
        exact ih _ ⟨i, tag', op, next, r, by simpa using hget, rfl⟩
  | perform op next ihp =>
    induction h with
    | intro tasks htasks ih =>
      refine ⟨_, fun tasks' ⟨i, tag', op', next', r, hget, heq⟩ => ?_⟩
      subst heq
      cases i with
      | zero =>
        obtain ⟨rfl, hperform⟩ := Prod.mk.inj (Option.some.inj hget)
        cases hperform
        exact ihp r ⟨tasks, htasks⟩
      | succ i => exact ih _ ⟨i, tag', op', next', r, by simpa using hget, rfl⟩

/-- Tasks cannot go on for ever. -/
theorem acc_shorter (tasks : List (Tag × Program Op Reply Result)) : Acc Shorter tasks := by
  induction tasks with
  | nil => exact ⟨_, fun tasks' ⟨i, tag, op, next, r, hget, _⟩ => absurd hget (by simp)⟩
  | cons task tasks ih => exact acc_shorter_cons task.1 task.2 ih

/-- All tasks have ended. -/
def Finished (w : Pool Tag State Op Reply Result) : Prop := ∀ task ∈ w.tasks, isPure task.2 = true

section Drains
variable (S : System Tag State Op Reply Result)

/-- Some task is granted its next operation, and there is a reply to it. -/
def Ready (grants : Pool Tag State Op Reply Result → Tag → Op → Bool)
    (w : Pool Tag State Op Reply Result) : Prop :=
  ∃ tag op next r state', (tag, .perform op next) ∈ w.tasks ∧ grants w tag op = true ∧
    S.handle w.state op r state'

/-- One task performs its next operation, with any reply that there can be. -/
inductive Performs : Pool Tag State Op Reply Result → Pool Tag State Op Reply Result → Prop
  | perform {state state' : State} {history : List (Tag × Program.Event Op Reply)} {tag : Tag}
      {op : Op} {next : Reply op → Program Op Reply Result} {r : Reply op}
      {before after : List (Tag × Program Op Reply Result)}
      (hhandle : S.handle state op r state') :
      Performs ⟨state, history, before ++ (tag, .perform op next) :: after⟩
        ⟨state', history ++ [(tag, ⟨op, r⟩)], before ++ (tag, next r) :: after⟩

/-- Whichever tasks move, however they are answered and however the state drifts in between, some
task is ready until, after finitely many moves, all have ended and the condition holds. -/
inductive Drains (grants : Pool Tag State Op Reply Result → Tag → Op → Bool) (Q : State → Prop) :
    Pool Tag State Op Reply Result → Prop
  | intro {w : Pool Tag State Op Reply Result}
      (hready : ∀ state, Relation.ReflTransGen S.drift w.state state →
        (Finished w ∧ Q state) ∨ Ready S grants { w with state })
      (hperforms : ∀ state w', Relation.ReflTransGen S.drift w.state state →
        Performs S { w with state } w' → Drains grants Q w') :
      Drains grants Q w

end Drains

variable {S : System Tag State Op Reply Result} {w w' : Pool Tag State Op Reply Result}
  {grants : Pool Tag State Op Reply Result → Tag → Op → Bool} {Q : State → Prop}

theorem Reachable.drifts (h : Reachable S w) {state : State}
    (hdrifts : Relation.ReflTransGen S.drift w.state state) : Reachable S { w with state } := by
  induction hdrifts with
  | refl => exact h
  | tail _ hdrift ih => exact ih.drift hdrift

theorem Performs.reachable (hperform : Performs S w w') (h : Reachable S w) : Reachable S w' := by
  cases hperform with
  | perform hhandle => exact h.perform hhandle

theorem Performs.map_fst_tasks (hperform : Performs S w w') :
    w'.tasks.map Prod.fst = w.tasks.map Prod.fst := by
  cases hperform with
  | perform hhandle => simp

theorem Performs.shorter (hperform : Performs S w w') : Shorter w'.tasks w.tasks := by
  cases hperform with
  | @perform _ _ _ tag op next r before after hhandle =>
    exact ⟨before.length, tag, op, next, r, by simp, by simp⟩

/-- If some unfinished task can always go on, a reachable pool drains. -/
theorem Reachable.drains
    (hready : ∀ {w : Pool Tag State Op Reply Result}, Reachable S w →
      (w.tasks.map Prod.fst).Nodup → ¬ Finished w → Ready S grants w)
    (hended : ∀ {w : Pool Tag State Op Reply Result}, Reachable S w →
      (w.tasks.map Prod.fst).Nodup → Finished w → Q w.state)
    (h : Reachable S w) (hnodup : (w.tasks.map Prod.fst).Nodup) : Drains S grants Q w := by
  generalize htasks : w.tasks = tasks
  induction acc_shorter tasks generalizing w with
  | intro tasks _ ih =>
    subst htasks
    refine .intro (fun state hdrifts => ?_) fun state w' hdrifts hperform => ?_
    · have hdrifted := h.drifts hdrifts
      by_cases hfinished : Finished w
      · exact .inl ⟨hfinished, hended hdrifted hnodup hfinished⟩
      · exact .inr (hready hdrifted hnodup hfinished)
    · have hnodup' : (w'.tasks.map Prod.fst).Nodup := by
        rw [hperform.map_fst_tasks]
        exact hnodup
      exact ih _ hperform.shorter (hperform.reachable (h.drifts hdrifts)) hnodup' rfl

end InferenceGateway.Library.Pool
