import InferenceGateway.Library.Schedule
import InferenceGateway.Resilience.LatencyTracker

/-!
# Concurrent latency records

Records run in any number of requests and replicas at once, and any of their calls may come
between the push and the trim of another. Whatever the order, a list holds the latest
samples: a trim only drops what lies outside the window, and each push that has not been
trimmed yet makes the list longer by at most one.
-/
namespace InferenceGateway.Resilience.LatencyTracker
open Library Redis

variable {Tag : Type} {tracker : LatencyTracker}

abbrev TrackerPool (Tag : Type) := Pool Tag (Redis.Lists ℚ) RedisCall RedisReply Unit

/-- Any number of records on any backends, from a Redis without samples. -/
def recording (Tag : Type) (tracker : LatencyTracker) :
    Pool.System Tag (Redis.Lists ℚ) RedisCall RedisReply Unit where
  initial := .empty
  starts _ p := ∃ backendId latencyMs, p = tracker.record backendId latencyMs
  handle db call reply db' := (reply, db') = redis db call
  drift _ _ := False

/-- The sample that an event has pushed on the list of the key. -/
def sample? (key : String) : Program.Event RedisCall RedisReply → Option ℚ
  | ⟨.lpush key' value, _⟩ => if key' = key then some value else none
  | _ => none

theorem sample?_lpush_self (key : String) (latencyMs : ℚ)
    (reply : RedisReply (.lpush key latencyMs)) :
    sample? key ⟨.lpush key latencyMs, reply⟩ = some latencyMs := if_pos rfl

/-- All samples that have been pushed on the list of the key, newest first. -/
def pushed (key : String) (history : List (Tag × Program.Event RedisCall RedisReply)) : List ℚ :=
  (history.filterMap fun e => sample? key e.2).reverse

/-- A record on the key that has pushed and not trimmed. -/
def betweenSteps (key : String) : TrackerAction Unit → Bool
  | .perform (.ltrim key' _ _) _ => key' = key
  | _ => false

/-- How many records on the key are between their steps. -/
def untrimmed (key : String) (w : TrackerPool Tag) : Nat :=
  w.tasks.countP fun task => betweenSteps key task.2

/-- Where a record can be. -/
inductive Stage (tracker : LatencyTracker) : TrackerAction Unit → Prop
  | starting (backendId : String) (latencyMs : ℚ) :
      Stage tracker (tracker.record backendId latencyMs)
  | pushed (backendId : String) :
      Stage tracker (.perform (.ltrim (key backendId) 0 (tracker.windowSize - 1)) .pure)
  | trimmed : Stage tracker (.pure ())

/-- What a record does next. -/
inductive Advances (tracker : LatencyTracker) :
    (call : RedisCall) → (RedisReply call → TrackerAction Unit) → Prop
  | push (backendId : String) (latencyMs : ℚ) :
      Advances tracker (.lpush (key backendId) latencyMs) fun _ =>
        .perform (.ltrim (key backendId) 0 (tracker.windowSize - 1)) .pure
  | trim (backendId : String) :
      Advances tracker (.ltrim (key backendId) 0 (tracker.windowSize - 1)) .pure

theorem Stage.advances {call : RedisCall} {next : RedisReply call → TrackerAction Unit}
    (h : Stage tracker (.perform call next)) : Advances tracker call next := by
  generalize hp : Program.perform call next = p at h
  cases h with
  | starting backendId latencyMs =>
    obtain ⟨rfl, hnext⟩ := Program.perform.inj hp
    obtain rfl := eq_of_heq hnext
    exact .push backendId latencyMs
  | pushed backendId =>
    obtain ⟨rfl, hnext⟩ := Program.perform.inj hp
    obtain rfl := eq_of_heq hnext
    exact .trim backendId
  | trimmed => exact nomatch hp

theorem Advances.stage {call : RedisCall} {next : RedisReply call → TrackerAction Unit}
    (h : Advances tracker call next) (reply : RedisReply call) : Stage tracker (next reply) := by
  cases h with
  | push backendId latencyMs => exact .pushed backendId
  | trim backendId => exact .trimmed

theorem pushed_concat (key : String) (history : List (Tag × Program.Event RedisCall RedisReply))
    (tag : Tag) (e : Program.Event RedisCall RedisReply) :
    pushed key (history ++ [(tag, e)]) = (sample? key e).toList ++ pushed key history := by
  rw [pushed, List.filterMap_append, List.reverse_append]
  cases h : sample? key e <;> simp [h, pushed]

/-- What holds of the list of a key. -/
abbrev WindowedAt (tracker : LatencyTracker) (w : TrackerPool Tag) (key : String) : Prop :=
  Windowed tracker.windowSize.toNat (w.state key) (pushed key w.history) (untrimmed key w)

section Step
variable {db db' : Redis.Lists ℚ} {history : List (Tag × Program.Event RedisCall RedisReply)}
  {tag : Tag} {call : RedisCall} {next : RedisReply call → TrackerAction Unit}
  {reply : RedisReply call} {before after : List (Tag × TrackerAction Unit)}

theorem windowedAt_iff {tasks : List (Tag × TrackerAction Unit)} {key : String} :
    WindowedAt tracker ⟨db, history, tasks⟩ key ↔ Windowed tracker.windowSize.toNat (db key)
      (pushed key history) (tasks.countP fun task => betweenSteps key task.2) := Iff.rfl

/-- A call about one key leaves the other keys as they are. -/
theorem windowedAt_other {key : String}
    (h : WindowedAt tracker ⟨db, history, before ++ (tag, .perform call next) :: after⟩ key)
    (hdb : db' key = db key) (hsample : sample? key ⟨call, reply⟩ = none)
    (hbefore : betweenSteps key (.perform call next) = false)
    (hafter : betweenSteps key (next reply) = false) : WindowedAt tracker
      ⟨db', history ++ [(tag, ⟨call, reply⟩)], before ++ (tag, next reply) :: after⟩ key := by
  rw [windowedAt_iff] at h ⊢
  rw [pushed_concat, hsample, hdb]
  simpa [hbefore, hafter] using h

theorem windowedAt_step {key : String} (hadvances : Advances tracker call next)
    (h : WindowedAt tracker ⟨db, history, before ++ (tag, .perform call next) :: after⟩ key)
    (hwindow : 1 ≤ tracker.windowSize) (hredis : (reply, db') = redis db call) :
    WindowedAt tracker
      ⟨db', history ++ [(tag, ⟨call, reply⟩)], before ++ (tag, next reply) :: after⟩ key := by
  cases hadvances with
  | push backendId latencyMs =>
    obtain ⟨rfl, rfl⟩ := Prod.mk.inj hredis
    by_cases hkey : key = LatencyTracker.key backendId
    · subst hkey
      rw [windowedAt_iff] at h ⊢
      rw [pushed_concat, sample?_lpush_self, Redis.Lists.lpush_self]
      refine (h.push latencyMs).mono (Nat.le_of_eq ?_)
      simp [betweenSteps, Nat.add_assoc]
    · refine windowedAt_other h (db.lpush_of_ne _ hkey latencyMs) ?_ rfl ?_
      · exact if_neg (Ne.symm hkey)
      · exact decide_eq_false (Ne.symm hkey)
  | trim backendId =>
    obtain ⟨rfl, rfl⟩ := Prod.mk.inj hredis
    by_cases hkey : key = LatencyTracker.key backendId
    · subst hkey
      rw [windowedAt_iff] at h ⊢
      rw [pushed_concat, Redis.Lists.ltrim_self, range_window _ hwindow]
      exact h.cut _
    · exact windowedAt_other h (db.ltrim_of_ne _ hkey _ _) rfl (decide_eq_false (Ne.symm hkey)) rfl

end Step

/-- Every task is a record, and every list is windowed. -/
theorem windowed_of_reachable (hwindow : 1 ≤ tracker.windowSize) {w : TrackerPool Tag}
    (h : Pool.Reachable (recording Tag tracker) w) :
    (∀ task ∈ w.tasks, Stage tracker task.2) ∧ ∀ key, WindowedAt tracker w key := by
  induction h with
  | initial => exact ⟨List.forall_mem_nil _, fun key => Windowed.nil _ _⟩
  | @start w tag p h hstart ih =>
    obtain ⟨hstages, hwindowed⟩ := ih
    obtain ⟨backendId, latencyMs, rfl⟩ := hstart
    refine ⟨List.forall_mem_append.mpr ⟨hstages, List.forall_mem_singleton.mpr ?_⟩, fun key => ?_⟩
    · exact .starting backendId latencyMs
    · exact (hwindowed key).mono (List.sublist_append_left _ _).countP_le
  | @perform db db' history tag call next reply before after h hhandle ih =>
    obtain ⟨hstages, hwindowed⟩ := ih
    have hadvances := (hstages _ (List.mem_append_right _ List.mem_cons_self)).advances
    refine ⟨fun task htask => ?_, fun key =>
      windowedAt_step hadvances (hwindowed key) hwindow hhandle⟩
    rw [List.mem_append, List.mem_cons] at htask
    obtain hbefore | rfl | hafter := htask
    · exact hstages task (List.mem_append_left _ hbefore)
    · exact hadvances.stage reply
    · exact hstages task (List.mem_append_right _ (List.mem_cons_of_mem _ hafter))
  | drift h hdrift ih => exact hdrift.elim

/-- However the calls of concurrent records are interleaved, the list of a backend is never
longer than the window and the records between their steps together, and whenever there are
none of these it holds the newest samples up to the window, newest first. -/
theorem concurrent_window (tracker : LatencyTracker) (hwindow : 1 ≤ tracker.windowSize)
    {w : TrackerPool Tag} (h : Pool.Reachable (recording Tag tracker) w) (backendId : String) :
    (w.state (key backendId)).length ≤
      tracker.windowSize.toNat + untrimmed (key backendId) w ∧
    (untrimmed (key backendId) w = 0 → w.state (key backendId) =
      (pushed (key backendId) w.history).take tracker.windowSize.toNat) := by
  have hwindowed := (windowed_of_reachable hwindow h).2 (key backendId)
  refine ⟨hwindowed.bounded, fun hnone => ?_⟩
  rw [WindowedAt, hnone] at hwindowed
  exact hwindowed.eq_take

/-- Three records have started on one backend. -/
def threeRecords : TrackerPool Nat where
  state := .empty
  history := []
  tasks := [1, 2, 3].map fun tag => (tag, LatencyTracker.record ⟨1⟩ "backend-b" tag)

/-- Two records push before the first trim, and the third pushes before the last two. -/
theorem concurrent_window_three :
    (threeRecords.schedule redis [0, 1, 0, 2, 1, 2]).state (key "backend-b") = [(3 : ℚ)] := by
  have hreachable : Pool.Reachable (recording Nat ⟨1⟩)
      (threeRecords.schedule redis [0, 1, 0, 2, 1, 2]) := by
    have hstarts : ∀ task ∈ threeRecords.tasks,
        (recording Nat ⟨1⟩).starts task.1 task.2 :=
      List.forall_mem_map.mpr fun tag _ => ⟨_, _, rfl⟩
    exact .schedule (fun _ _ => rfl) (.starts .initial hstarts) _
  have hpushed : (pushed (key "backend-b")
      (threeRecords.schedule redis [0, 1, 0, 2, 1, 2]).history).take 1 = [(3 : ℚ)] := by
    decide +kernel
  rw [← hpushed]
  exact (concurrent_window ⟨1⟩ (by decide) hreachable "backend-b").2 (by decide +kernel)

end InferenceGateway.Resilience.LatencyTracker
