import InferenceGateway.Library.Schedule
import Mathlib.Data.List.Count

/-!
# Slots that tasks hold

The tasks of a pool hold slots of shared resources, at most one at a time, and the events of
a task tell which. If every operation moves a slot between the state and the task that
performs it, then no slot is lost and none is created, whatever the tasks and their order.
-/
namespace InferenceGateway.Library.Pool

variable {Tag State Op : Type} {Reply : Op → Type} {Result Resource : Type} [DecidableEq Tag]
  [DecidableEq Resource]

/-- The slots of the resource that a task with this holding has: one or none. -/
def slots (holding : Option Resource) (x : Resource) : Nat := if holding = some x then 1 else 0

/-- How many tasks hold a slot of the resource. -/
def holders (held : List (Program.Event Op Reply) → Option Resource)
    (w : Pool Tag State Op Reply Result) (x : Resource) : Nat :=
  w.tasks.countP fun task => held (own task.1 w.history) = some x

/-- An operation moves a slot between the state and the task that performs it. -/
def Moves (free : State → Resource → Nat)
    (held : List (Program.Event Op Reply) → Option Resource) (past : List (Program.Event Op Reply))
    (state : State) (e : Program.Event Op Reply) (state' : State) : Prop :=
  ∀ x, free state' x + slots (held (past ++ [e])) x = free state x + slots (held past) x

variable {S : System Tag State Op Reply Result} {w : Pool Tag State Op Reply Result}
  {free : State → Resource → Nat} {held : List (Program.Event Op Reply) → Option Resource}

/-- The other tasks hold what they held. -/
theorem countP_holds_of_ne (held : List (Program.Event Op Reply) → Option Resource)
    {tasks : List (Tag × Program Op Reply Result)} {tag : Tag}
    (hother : ∀ task ∈ tasks, task.1 ≠ tag) (history : List (Tag × Program.Event Op Reply))
    (e : Program.Event Op Reply) (x : Resource) :
    tasks.countP (fun task => held (own task.1 (history ++ [(tag, e)])) = some x) =
      tasks.countP fun task => held (own task.1 history) = some x := by
  apply List.countP_congr
  intro task htask
  rw [own_append, own_cons_of_ne (hother task htask).symm, own_nil, List.append_nil]

/-- The free slots and the held ones are as many as there were at the start. -/
theorem Reachable.conserved (hnone : held [] = none)
    (hmoves : ∀ {w : Pool Tag State Op Reply Result} {tag : Tag} {op : Op}
      {next : Reply op → Program Op Reply Result} {r : Reply op} {state' : State},
      Reachable S w → (w.tasks.map Prod.fst).Nodup → (tag, .perform op next) ∈ w.tasks →
      S.handle w.state op r state' → Moves free held (own tag w.history) w.state ⟨op, r⟩ state')
    (hdrift : ∀ state state', S.drift state state' → free state' = free state)
    (h : Reachable S w) (hnodup : (w.tasks.map Prod.fst).Nodup) (x : Resource) :
    free w.state x + holders held w x = free S.initial x := by
  induction h with
  | initial => simp [holders]
  | @start w tag p h hstart ih =>
    rw [List.map_append, List.nodup_append] at hnodup
    obtain ⟨hold, -, hdisjoint⟩ := hnodup
    have hempty : own tag w.history = [] :=
      own_eq_nil fun e he => hdisjoint _ (h.mem_tags e he) _ (by simp)
    have hlast := ih hold
    rw [holders, List.countP_append, List.countP_singleton, hempty, hnone]
    simpa [holders] using hlast
  | @perform state state' history tag op next r before after h hhandle ih =>
    have htags : (before ++ (tag, next r) :: after).map Prod.fst =
        (before ++ (tag, Program.perform op next) :: after).map Prod.fst := by simp
    rw [htags] at hnodup
    have hmoved := hmoves h hnodup (List.mem_append_right _ List.mem_cons_self) hhandle x
    have hlast := ih hnodup
    rw [List.map_append, List.map_cons, List.nodup_middle, List.nodup_cons, ← List.map_append]
      at hnodup
    have hother : ∀ task ∈ before ++ after, task.1 ≠ tag := fun task htask heq =>
      hnodup.1 (List.mem_map.mpr ⟨task, htask, heq⟩)
    have hbefore := countP_holds_of_ne held (fun task htask => hother task
      (List.mem_append_left _ htask)) history ⟨op, r⟩ x
    have hafter := countP_holds_of_ne held (fun task htask => hother task
      (List.mem_append_right _ htask)) history ⟨op, r⟩ x
    simp only [holders, List.countP_append, List.countP_cons, decide_eq_true_eq] at hlast ⊢
    rw [hbefore, hafter, own_append, own_cons_self, own_nil]
    unfold slots at hmoved
    dsimp only at hmoved
    omega
  | drift h hd ih =>
    rw [hdrift _ _ hd]
    exact ih hnodup

end InferenceGateway.Library.Pool
