import InferenceGateway.Library.Progress
import InferenceGateway.Orchestrator.Concurrency

/-!
# No deadlock

A request that waits for a slot holds none, and one that holds a slot is in a call and waits for
no other. So some request can always go on, and a process that takes no more requests comes to
its end with all slots free, whatever the backends, the stores and the clients do.
-/
namespace InferenceGateway.Orchestrator
open Library Library.Action Backends Cache Persistence Redis

/-- Entering a semaphore has to wait until there is a free slot. -/
def canGoOn (perBackendConcurrency : Nat) (w : Pool Nat Guarded Op Reply Outcome) (_tag : Nat) :
    Op → Bool
  | .acquire backendId => 0 < freeSlots perBackendConcurrency w.state backendId
  | _ => true

section Runs
variable {cache : TwoTierCache} {gw : RequestOrchestrator} {table : List Backend}
  {perBackendConcurrency : Nat} {w : Pool Nat Guarded Op Reply Outcome}

/-- A task that has ended holds no slot. -/
theorem held_of_finished (h : Pool.Reachable (guarded cache gw table perBackendConcurrency) w)
    (hnodup : (w.tasks.map Prod.fst).Nodup) {tag : Nat} {outcome : Outcome}
    (htask : (tag, .pure outcome) ∈ w.tasks) : held (Pool.own tag w.history) = none := by
  obtain ⟨p, ⟨purpose, hstart⟩, hfollows⟩ := h.follows hnodup _ htask
  exact (hfollows.ended hstart.slotOrder fun _ _ => trivial).2

/-- If a backend has no free slot, some task is in a call of it, so it waits for no slot. -/
theorem exists_inside (h : Pool.Reachable (guarded cache gw table perBackendConcurrency) w)
    (hnodup : (w.tasks.map Prod.fst).Nodup) (hpos : 1 ≤ perBackendConcurrency) {backendId : Uuid}
    (hfull : freeSlots perBackendConcurrency w.state backendId = 0) :
    ∃ tag op next, (tag, .perform op next) ∈ w.tasks ∧ WhileHeld backendId op := by
  have hslots := freeSlots_add h hnodup backendId
  have hsome : 0 < callsInFlight w backendId := by omega
  obtain ⟨⟨tag, p⟩, htask, hholds⟩ := List.countP_pos_iff.mp hsome
  have hheld : held (Pool.own tag w.history) = some backendId := of_decide_eq_true hholds
  cases p with
  | pure outcome =>
    rw [held_of_finished h hnodup htask] at hheld
    exact absurd hheld (by simp)
  | perform op next =>
    have horder := slotOrder_next h hnodup htask (.error .cancelled)
    exact ⟨tag, op, next, htask, horder.inside backendId hheld⟩

theorem canGoOn_of_whileHeld {backendId : Uuid} {op : Op} (h : WhileHeld backendId op)
    (tag : Nat) : canGoOn perBackendConcurrency w tag op = true := by
  obtain rfl | ⟨client, huses⟩ | ⟨chunk, rfl⟩ := h
  · rfl
  · cases op <;> first | rfl | exact huses.elim
  · rfl

/-- As long as a task is unfinished, some task can go on. -/
theorem ready_of_unfinished (h : Pool.Reachable (guarded cache gw table perBackendConcurrency) w)
    (hnodup : (w.tasks.map Prod.fst).Nodup) (hpos : 1 ≤ perBackendConcurrency)
    (hunfinished : ¬ Pool.Finished w) :
    Pool.Ready (guarded cache gw table perBackendConcurrency) (canGoOn perBackendConcurrency)
      w := by
  have hready : ∀ {tag op next}, (tag, .perform op next) ∈ w.tasks →
      canGoOn perBackendConcurrency w tag op = true →
      Pool.Ready (guarded cache gw table perBackendConcurrency) (canGoOn perBackendConcurrency)
        w := fun htask hgo =>
    ⟨_, _, _, _, _, htask, hgo, answerGuarded_handle cache gw table perBackendConcurrency _ _⟩
  unfold Pool.Finished at hunfinished
  push Not at hunfinished
  obtain ⟨⟨tag, p⟩, htask, hnot⟩ := hunfinished
  cases p with
  | pure outcome => exact absurd rfl hnot
  | perform op next =>
    by_cases hgo : canGoOn perBackendConcurrency w tag op = true
    · exact hready htask hgo
    · obtain ⟨backendId, rfl⟩ : ∃ backendId, op = .acquire backendId := by
        cases op <;> first | exact ⟨_, rfl⟩ | exact absurd rfl hgo
      have hfull : freeSlots perBackendConcurrency w.state backendId = 0 := by
        simpa [canGoOn] using hgo
      obtain ⟨tag', op', next', htask', hinside⟩ := exists_inside h hnodup hpos hfull
      exact hready htask' (canGoOn_of_whileHeld hinside tag')

/-- When all tasks have ended, all slots are free. -/
theorem freeSlots_of_finished
    (h : Pool.Reachable (guarded cache gw table perBackendConcurrency) w)
    (hnodup : (w.tasks.map Prod.fst).Nodup) (hfinished : Pool.Finished w) (backendId : Uuid) :
    freeSlots perBackendConcurrency w.state backendId = perBackendConcurrency := by
  have hnone : callsInFlight w backendId = 0 := by
    refine List.countP_eq_zero.mpr fun ⟨tag, p⟩ htask => ?_
    obtain ⟨outcome, rfl⟩ := Pool.isPure_iff.mp (hfinished _ htask)
    simp [held_of_finished h hnodup htask]
  have hslots := freeSlots_add h hnodup backendId
  omega

end Runs

/-- Whatever the operations reply and whichever tasks go on, from every state that a process
reaches some unfinished task can go on, without waiting for a slot, until after finitely many
operations all tasks have ended; and then all slots are free. -/
theorem process_drains (cache : TwoTierCache) (gw : RequestOrchestrator) (table : List Backend)
    {perBackendConcurrency : Nat} (hpos : 1 ≤ perBackendConcurrency)
    {w : Pool Nat Guarded Op Reply Outcome}
    (hreach : Pool.Reachable (guarded cache gw table perBackendConcurrency) w)
    (hnodup : (w.tasks.map Prod.fst).Nodup) :
    Pool.Drains (guarded cache gw table perBackendConcurrency) (canGoOn perBackendConcurrency)
      (fun s => ∀ backendId, freeSlots perBackendConcurrency s backendId = perBackendConcurrency)
      w :=
  hreach.drains (fun h hnodup hunfinished => ready_of_unfinished h hnodup hpos hunfinished)
    (fun h hnodup hfinished backendId => freeSlots_of_finished h hnodup hfinished backendId) hnodup

/-- With one slot, which the first request holds, the second one and a reload are not stuck. -/
theorem process_drains_waiting :
    let w := fourTasks.schedule (answerGuarded 1)
      [0, 0, 0, 0, 1, 1, 1, 1, 1, 1, 1, 1, 2, 2, 2, 2, 2, 2, 2]
    freeSlots 1 w.state 0 = 0 ∧
      Pool.Drains (guarded sampleCache zeroDigest flaky 1) (canGoOn 1)
        (fun s => ∀ backendId, freeSlots 1 s backendId = 1) w := by
  intro w
  have hfull : freeSlots 1 w.state 0 = 0 := by
    unfold w fourTasks handleComplete handleStream
    rw [walk_evaluates]
    decide +kernel
  have hreach : Pool.Reachable (guarded sampleCache zeroDigest flaky 1) w :=
    .schedule (answerGuarded_handle _ _ _ _) (.starts .initial fourTasks_start) _
  have hnodup : (w.tasks.map Prod.fst).Nodup := by
    rw [Pool.map_fst_schedule]
    decide
  exact ⟨hfull, process_drains sampleCache zeroDigest flaky le_rfl hreach hnodup⟩

end InferenceGateway.Orchestrator
