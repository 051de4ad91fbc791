import InferenceGateway.Library.Program
import Mathlib.Data.List.Infix

/-!
# Interleaved programs over a shared state

A pool holds a shared state, the history of all operations performed so far, and the
tasks in progress, each with a tag. Tasks take turns operation by operation in any order,
new tasks may start at any time, and the state may change on its own. `Discipline` is a
rely-guarantee argument about such a pool: each task meets a contract that may refer to
its tag and to the history, and the state keeps an invariant as long as they all do.
-/
namespace InferenceGateway.Library

structure Pool (Tag State Op : Type) (Reply : Op → Type) (Result : Type) where
  state : State
  history : List (Tag × Program.Event Op Reply)
  tasks : List (Tag × Program Op Reply Result)

namespace Pool

variable {Tag State Op : Type} {Reply : Op → Type} {Result : Type}

/-- How the shared state answers operations and changes, and which tasks may start. -/
structure System (Tag State Op : Type) (Reply : Op → Type) (Result : Type) where
  initial : State
  starts : Tag → Program Op Reply Result → Prop
  handle : State → (op : Op) → Reply op → State → Prop
  drift : State → State → Prop

/-- The pools a system can reach. -/
inductive Reachable (S : System Tag State Op Reply Result) : Pool Tag State Op Reply Result → Prop
  | initial : Reachable S ⟨S.initial, [], []⟩
  | start {w : Pool Tag State Op Reply Result} {tag : Tag} {p : Program Op Reply Result}
      (h : Reachable S w) (hstart : S.starts tag p) :
      Reachable S { w with tasks := w.tasks ++ [(tag, p)] }
  | perform {state state' : State} {history : List (Tag × Program.Event Op Reply)} {tag : Tag}
      {op : Op} {next : Reply op → Program Op Reply Result} {r : Reply op}
      {before after : List (Tag × Program Op Reply Result)}
      (h : Reachable S ⟨state, history, before ++ (tag, .perform op next) :: after⟩)
      (hhandle : S.handle state op r state') :
      Reachable S ⟨state', history ++ [(tag, ⟨op, r⟩)], before ++ (tag, next r) :: after⟩
  | drift {w : Pool Tag State Op Reply Result} {state' : State}
      (h : Reachable S w) (hdrift : S.drift w.state state') :
      Reachable S { w with state := state' }

/-- A rely-guarantee argument. What is promised of a reply must stay true as the history
grows; then a task may use the promises of all its replies whenever it goes on. -/
structure Discipline (S : System Tag State Op Reply Result) where
  contract : Tag → List (Tag × Program.Event Op Reply) → Program.Contract Op Reply
  result : Tag → List (Tag × Program.Event Op Reply) → Result → Prop
  Inv : State → List (Tag × Program.Event Op Reply) → Prop
  initial : Inv S.initial []
  start : ∀ tag p, S.starts tag p → ∀ history,
    Program.wp (contract tag history) p fun _ a => result tag history a
  lasting : ∀ tag history history', history <+: history' → ∀ op r,
    (contract tag history).promised op r → (contract tag history').promised op r
  handle : ∀ tag state history op r state', Inv state history →
    (contract tag history).allowed op → S.handle state op r state' →
    Inv state' (history ++ [(tag, ⟨op, r⟩)]) ∧
      (contract tag (history ++ [(tag, ⟨op, r⟩)])).promised op r
  drift : ∀ state history state', Inv state history → S.drift state state' → Inv state' history

namespace Discipline

variable {S : System Tag State Op Reply Result} (D : Discipline S)

/-- The task goes on as its contract asks, at this history and at every later one. -/
def Keeps (history : List (Tag × Program.Event Op Reply)) (task : Tag × Program Op Reply Result) :
    Prop :=
  ∀ history', history <+: history' →
    Program.wp (D.contract task.1 history') task.2 fun _ a => D.result task.1 history' a

variable {D}

theorem Keeps.later {history history' : List (Tag × Program.Event Op Reply)}
    {task : Tag × Program Op Reply Result} (h : D.Keeps history task)
    (hle : history <+: history') : D.Keeps history' task :=
  fun history'' hle' => h history'' (hle.trans hle')

/-- After a reply that keeps its promise the rest of the task keeps its contract. -/
theorem Keeps.next {history : List (Tag × Program.Event Op Reply)} {tag : Tag} {op : Op}
    {next : Reply op → Program Op Reply Result} {r : Reply op}
    (h : D.Keeps history (tag, .perform op next))
    (hr : (D.contract tag (history ++ [(tag, ⟨op, r⟩)])).promised op r) :
    D.Keeps (history ++ [(tag, ⟨op, r⟩)]) (tag, next r) := fun history' hle =>
  (h history' ((List.prefix_append _ _).trans hle)).2 r (D.lasting _ _ _ hle op r hr)

/-- The invariant and the contracts hold in every reachable pool. -/
theorem sound {w : Pool Tag State Op Reply Result} (h : Reachable S w) :
    D.Inv w.state w.history ∧ ∀ task ∈ w.tasks, D.Keeps w.history task := by
  induction h with
  | initial => exact ⟨D.initial, by simp⟩
  | start h hstart ih =>
    refine ⟨ih.1, fun task htask => ?_⟩
    obtain hold | hnew := List.mem_append.mp htask
    · exact ih.2 task hold
    · obtain rfl := List.mem_singleton.mp hnew
      exact fun history' _ => D.start _ _ hstart history'
  | perform h hhandle ih =>
    obtain ⟨hinv, htasks⟩ := ih
    have hself := htasks _ (List.mem_append_right _ List.mem_cons_self)
    obtain ⟨hinv', hpromised⟩ :=
      D.handle _ _ _ _ _ _ hinv (hself _ List.prefix_rfl).1 hhandle
    refine ⟨hinv', fun task htask => ?_⟩
    rw [List.mem_append, List.mem_cons] at htask
    obtain hbefore | rfl | hafter := htask
    · exact (htasks task (List.mem_append_left _ hbefore)).later (List.prefix_append _ _)
    · exact hself.next hpromised
    · exact (htasks task (List.mem_append_right _ (List.mem_cons_of_mem _ hafter))).later
        (List.prefix_append _ _)
  | drift h hdrift ih => exact ⟨D.drift _ _ _ ih.1 hdrift, ih.2⟩

/-- A task that has finished has a result as its contract says. -/
theorem finished {w : Pool Tag State Op Reply Result} (h : Reachable S w) {tag : Tag} {a : Result}
    (ha : (tag, .pure a) ∈ w.tasks) : D.result tag w.history a :=
  (D.sound h).2 _ ha w.history List.prefix_rfl

end Discipline

end Pool

end InferenceGateway.Library
