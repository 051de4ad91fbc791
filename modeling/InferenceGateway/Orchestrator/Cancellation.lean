import InferenceGateway.Library.Abort
import InferenceGateway.Orchestrator.Bookkeeping
import InferenceGateway.Orchestrator.Traces

/-!
# Cancelled requests

A request is cancelled at one of its awaits, when the client has gone or the process stops. The
handlers catch `Exception`, and a cancellation is none: it is no failure of a backend, and nothing
is tried or written down after it. All that is still done is that slots are given back.
-/
namespace InferenceGateway.Orchestrator
open Library Library.Action

/-- Leaving a semaphore does not wait, so it is not cancelled, and it does not raise. -/
def SlotReleased : (op : Op) → Reply op → Prop
  | .release _, r => r = .ok ()
  | _, _ => True

abbrev released : Contract := .expecting SlotReleased

def Op.isRelease : Op → Prop
  | .release _ => True
  | _ => False

/-- After a cancellation there are only releases, and the result tells it. -/
abbrev Cancels {α : Type} (tells : Raised → Except Raised α → Prop) (trace : List Event)
    (r : Except Raised α) : Prop :=
  Aborts (fun e : Raised => e.isException = false) Op.isRelease tells trace r

/-- The loop over a stream hands on what has ended it. -/
def Hands {α : Type} (e : Raised) (r : Except Raised (α × Except Raised Unit)) : Prop :=
  ∃ a, r = .ok (a, .error e)

section Parts
variable {α : Type} {gw : RequestOrchestrator} {req : ChatRequest}

theorem admits_released (gw : RequestOrchestrator) (req : ChatRequest) : Admits released gw req :=
  .of_allowed fun _ => trivial

theorem cancels_withSemaphore {backendId : Uuid} {body : Action α}
    (hbody : wp released body (Cancels Raises)) :
    wp released (withSemaphore backendId body) (Cancels Raises) := by
  unfold withSemaphore
  refine aborts_bind (aborts_call trivial) (fun _ => ?_) fun _ _ => rfl
  refine aborts_bind_told (aborts_attempt hbody) (fun _ _ _ htold => absurd htold (by simp))
    fun outcome => ?_
  refine wp_call_bind trivial (fun e he => nomatch he) fun u _ => ?_
  have hsmooth : Smooth [(⟨.release backendId, .ok u⟩ : Event)] := Smooth.nil.cons u
  cases outcome with
  | ok a => exact ⟨.of_smooth hsmooth, fun _ _ htold => absurd htold (by simp)⟩
  | error e =>
    refine ⟨.of_smooth hsmooth, fun e' _ htold => ⟨by simp [Op.isRelease], ?_⟩⟩
    exact Except.ok.inj htold

/-- The bookkeeping of the handlers raises what it sees. -/
theorem cancels_of_straight {x : Action α} (h : Straight released (fun _ => True) x) :
    wp released x (Cancels Raises) :=
  aborts_of_straight h

theorem cancels_incr (metric : String) (labels : List (String × String)) :
    wp released (incr gw metric labels) (Cancels Raises) := by
  unfold incr
  split
  · exact aborts_call trivial
  · exact aborts_pure ()

theorem cancels_settle (start : Time) (reservation : Resilience.RateLimit.ReservationId)
    (backend : Backend) (content : String) (tokensIn tokensOut : Int)
    (finishReason : Option String) :
    wp released (settle gw req start reservation backend content tokensIn tokensOut finishReason)
      (Cancels Raises) :=
  cancels_of_straight (straight_settle (admits_released gw req) (fun _ _ => trivial)
    (fun _ => trivial) start reservation content tokensIn tokensOut finishReason)

theorem cancels_chargeHit (start : Time) (reservation : Resilience.RateLimit.ReservationId)
    (hit : CacheHit) : wp released (chargeHit gw req start reservation hit) (Cancels Raises) :=
  cancels_of_straight (straight_chargeHit (admits_released gw req) (fun _ _ => trivial)
    (fun _ => trivial) (fun _ => trivial) start reservation hit)

theorem cancels_logUnavailable (start : Time) :
    wp released (logUnavailable req start) (Cancels Raises) :=
  cancels_of_straight (straight_logUnavailable (admits_released ⟨true, fun _ => ""⟩ req)
    (fun _ _ => trivial) (fun _ => trivial) start)

/-- What is told of a call is thrown again if it is a cancellation. -/
theorem cancels_caught {β : Type} {x : Action β} {handle : Except Raised β → Action α}
    (hx : wp released x (Cancels Raises))
    (hhandle : ∀ outcome, wp released (handle outcome) (Cancels Raises))
    (hrethrows : ∀ e, e.isException = false → handle (.error e) = throw e) :
    wp released (attempt x >>= handle) (Cancels Raises) := by
  refine aborts_bind_told (aborts_attempt hx) (fun _ _ _ htold => absurd htold (by simp))
    fun outcome => ?_
  cases outcome with
  | ok a => exact wp_mono (hhandle (.ok a)) fun _ _ hr =>
      ⟨hr, fun _ _ htold => absurd htold (by simp)⟩
  | error e =>
    by_cases hkind : e.isException = false
    · rw [hrethrows e hkind]
      refine (wp_throw _ _).mpr ⟨.nil, fun e' _ htold => ⟨by simp, ?_⟩⟩
      obtain rfl := Except.error.inj (Except.ok.inj htold)
      rfl
    · refine wp_mono (hhandle (.error e)) fun _ _ hr => ⟨hr, fun e' hfatal htold => ?_⟩
      obtain rfl := Except.error.inj (Except.ok.inj htold)
      exact absurd hfatal hkind

theorem cancels_completeWith (start : Time) (reservation : Resilience.RateLimit.ReservationId)
    (backend : Backend) (client : Client) :
    wp released (completeWith gw req start reservation backend client) (Cancels Raises) := by
  refine cancels_caught (cancels_withSemaphore (aborts_call trivial)) (fun outcome => ?_)
    fun e hkind => by simp [hkind]
  cases outcome with
  | error e =>
    dsimp only
    split
    · refine aborts_bind (aborts_call trivial) (fun _ => ?_) fun _ _ => rfl
      exact aborts_bind (cancels_incr _ _) (fun _ => aborts_pure _) fun _ _ => rfl
    · exact aborts_throw e
  | ok completion =>
    refine aborts_bind (cancels_settle start reservation backend _ _ _ _) (fun latency => ?_)
      fun _ _ => rfl
    refine aborts_bind (cancels_incr _ _) (fun _ => ?_) fun _ _ => rfl
    unfold observe
    refine aborts_bind ?_ (fun _ => aborts_pure _) fun _ _ => rfl
    split
    · exact aborts_call trivial
    · exact aborts_pure ()

/-- One operation of the loop over a stream. -/
theorem cancels_perform {op : Op} {f : Except Raised (Ret op) → Action (α × Except Raised Unit)}
    (hf : ∀ r, wp released (f r) (Cancels Hands))
    (hhands : ∀ e, ∃ a, f (.error e) = Pure.pure (a, .error e)) :
    wp released (attempt (call op) >>= f) (Cancels Hands) := by
  refine aborts_bind_told (aborts_attempt (aborts_call trivial))
    (fun _ _ _ htold => absurd htold (by simp)) fun r => ?_
  cases r with
  | ok a => exact wp_mono (hf (.ok a)) fun _ _ hr => ⟨hr, fun _ _ htold => absurd htold (by simp)⟩
  | error e =>
    obtain ⟨a, ha⟩ := hhands e
    rw [ha]
    refine (wp_pure _ _).mpr ⟨.nil, fun e' _ htold => ⟨by simp, a, ?_⟩⟩
    rw [Except.error.inj (Except.ok.inj htold)]

theorem cancels_consume (client : Client) (events : List StreamEvent) (s : Consumed) :
    wp released (consume client events s) (Cancels Hands) := by
  induction events generalizing s with
  | nil => exact cancels_perform (fun r => aborts_pure (s, r)) fun e => ⟨s, rfl⟩
  | cons event events ih =>
    refine cancels_perform (fun r => ?_) fun e => ⟨s, rfl⟩
    cases r with
    | error e => exact aborts_pure _
    | ok u =>
      cases event with
      | usage u => exact ih { s with usage := some u }
      | text chunk =>
        refine cancels_perform (fun r => ?_) fun e => ⟨_, rfl⟩
        cases r with
        | error e => exact aborts_pure _
        | ok v => exact ih _

theorem cancels_streamFrom (backend : Backend) (client : Client) :
    wp released (streamFrom req backend client) (Cancels Hands) := by
  refine cancels_perform (fun r => ?_) fun e => ⟨{}, rfl⟩
  cases r with
  | error e => exact aborts_pure _
  | ok u =>
    refine aborts_bind_told (?_ : wp released _ (Cancels Hands)) (fun _ _ _ htold => ?_)
      fun (s, ended) => ?_
    · refine cancels_perform (fun r => ?_) fun e => ⟨{}, rfl⟩
      cases r with
      | error e => exact aborts_pure _
      | ok events => exact cancels_consume client events {}
    · obtain ⟨a, ha⟩ := htold
      exact absurd ha (by simp)
    · refine wp_attempt_bind trivial fun r hr => ?_
      obtain rfl : r = .ok () := hr
      have hsmooth : Smooth [(⟨.release backend.id, .ok ()⟩ : Event)] := Smooth.nil.cons _
      refine (wp_pure _ _).mpr ⟨.of_smooth hsmooth, fun e _ htold => ?_⟩
      obtain ⟨a, ha⟩ := htold
      obtain ⟨rfl, rfl⟩ := Prod.mk.inj (Except.ok.inj ha)
      exact ⟨by simp [Op.isRelease], s, rfl⟩

theorem cancels_streamWith (start : Time) (reservation : Resilience.RateLimit.ReservationId)
    (backend : Backend) (client : Client) :
    wp released (streamWith gw req start reservation backend client) (Cancels Raises) := by
  refine aborts_bind_told (cancels_streamFrom backend client) (fun _ _ _ htold => ?_)
    fun (s, ended) => ?_
  · obtain ⟨a, ha⟩ := htold
    exact absurd ha (by simp)
  · cases ended with
    | ok u =>
      refine wp_mono (Q := Cancels Raises) ?_ fun _ _ hr => ⟨hr, fun _ _ htold => ?_⟩
      · refine aborts_bind (cancels_settle start reservation backend _ _ _ _) (fun latency => ?_)
          fun _ _ => rfl
        refine aborts_bind (cancels_incr _ _) (fun _ => ?_) fun _ _ => rfl
        exact aborts_bind (aborts_call trivial) (fun _ => aborts_pure _) fun _ _ => rfl
      · obtain ⟨a, ha⟩ := htold
        exact absurd ha (by simp)
    | error e =>
      dsimp only
      split
      · rename_i hkind
        refine wp_mono (Q := Cancels Raises) ?_ fun _ _ hr => ⟨hr, fun e' hfatal htold => ?_⟩
        · refine aborts_bind (aborts_call trivial) (fun _ => ?_) fun _ _ => rfl
          split
          · exact aborts_throw _
          · exact aborts_pure _
        · obtain ⟨a, ha⟩ := htold
          obtain rfl := Except.error.inj (Prod.mk.inj (Except.ok.inj ha)).2
          exact absurd hfatal (by simp [hkind])
      · refine (wp_throw _ _).mpr ⟨.nil, fun e' _ htold => ⟨by simp, ?_⟩⟩
        obtain ⟨a, ha⟩ := htold
        obtain rfl := Except.error.inj (Prod.mk.inj (Except.ok.inj ha)).2
        rfl

theorem cancels_walk {stopped : Raised} {body : Backend → Client → Action (Pass α)}
    {exhausted : Option Raised → Action α}
    (hbody : ∀ backend client, wp released (body backend client) (Cancels Raises))
    (hexhausted : ∀ err, wp released (exhausted err) (Cancels Raises))
    (remaining : List (Backend × Client)) (err : Option Raised) :
    wp released (walk req stopped body exhausted remaining err) (Cancels Raises) := by
  suffices h : WalkRule released req stopped body exhausted (fun _ _ => True)
      (fun _ _ => Cancels Raises) from h.wp_walk trivial
  have hasked : ∀ {rem : List (Backend × Client)} {chosen backend : Backend} {verdict : Bool},
      Smooth [(⟨.select (rem.map Prod.fst) (features req), .ok chosen⟩ : Event),
        ⟨.allow backend.id, .ok verdict⟩] := (Smooth.nil.cons _).cons _
  refine ⟨fun _ _ => trivial, fun _ _ _ => .of_ended ⟨[], _, rfl, .nil⟩,
    fun _ _ _ _ => .of_smooth (Smooth.nil.cons _), fun _ _ => trivial,
    fun _ _ _ => .of_ended ⟨[_], _, rfl, Smooth.nil.cons _⟩, ?_, ?_, fun _ => hexhausted _⟩
  · intro rem err chosen backend client _ _ _ _
    exact ⟨trivial, fun trace r hr => Aborts.after_smooth hasked hr⟩
  · intro rem err chosen backend client _ _ _ _
    refine wp_mono (hbody backend client) fun trace r hr => ?_
    cases r with
    | error e => exact Aborts.after_smooth hasked hr.raised
    | ok pass =>
      cases pass with
      | done a =>
        have hdone : Cancels Raises trace (.ok a : Except Raised α) := ⟨hr.after,
          fun ev hev e hfatal he => absurd (hr.told ev hev e hfatal he) (by simp [Raises])⟩
        exact Aborts.after_smooth hasked hdone
      | next err' => exact ⟨trivial, fun trace' r' hr' =>
          Aborts.after_smooth hasked (hr.after_ok hr')⟩

/-- Both handlers, for their two ways to go on. -/
theorem cancels_pipeline {charged : Time → Resilience.RateLimit.ReservationId → CacheHit → Action α}
    {loop : Time → Resilience.RateLimit.ReservationId → List (Backend × Client) → Action α}
    (hcharged : ∀ start reservation hit,
      wp released (charged start reservation hit) (Cancels Raises))
    (hloop : ∀ start reservation remaining,
      wp released (loop start reservation remaining) (Cancels Raises)) :
    wp released (pipeline gw req charged loop) (Cancels Raises) := by
  refine aborts_bind (aborts_call trivial) (fun start => ?_) fun _ _ => rfl
  refine aborts_bind (aborts_call trivial) (fun reserved => ?_) fun _ _ => rfl
  cases reserved with
  | none => exact aborts_throw _
  | some reservation =>
    refine aborts_bind (aborts_of_straight (admits_released gw req).lookup) (fun hit => ?_)
      fun _ _ => rfl
    cases hit with
    | some hit => exact hcharged start reservation hit
    | none =>
      refine aborts_bind (aborts_call trivial) (fun remaining => ?_) fun _ _ => rfl
      split
      · exact aborts_throw _
      · exact hloop start reservation remaining

theorem cancels_handleComplete (gw : RequestOrchestrator) (req : ChatRequest) :
    wp released (handleComplete gw req) (Cancels Raises) := by
  rw [handleComplete_eq]
  refine cancels_pipeline (fun start reservation hit => ?_) fun start reservation remaining => ?_
  · exact aborts_bind (cancels_chargeHit start reservation hit) (fun _ => aborts_pure _)
      fun _ _ => rfl
  · refine cancels_walk (cancels_completeWith start reservation) (fun err => ?_) remaining none
    refine aborts_bind (cancels_logUnavailable start) (fun _ => ?_) fun _ _ => rfl
    exact aborts_bind (cancels_incr _ _) (fun _ => aborts_throw _) fun _ _ => rfl

theorem cancels_handleStream (gw : RequestOrchestrator) (req : ChatRequest) :
    wp released (handleStream gw req) (Cancels Raises) := by
  rw [handleStream_eq]
  refine cancels_pipeline (fun start reservation hit => ?_) fun start reservation remaining => ?_
  · refine aborts_bind (cancels_chargeHit start reservation hit) (fun _ => ?_) fun _ _ => rfl
    exact aborts_bind (aborts_call trivial) (fun _ => aborts_call trivial) fun _ _ => rfl
  · refine cancels_walk (cancels_streamWith start reservation) (fun err => ?_) remaining none
    exact aborts_bind (cancels_logUnavailable start) (fun _ => aborts_throw _) fun _ _ => rfl

end Parts

/-- A cancellation ends the request: once an operation has been cancelled the request only leaves
semaphores, and raises the cancellation. -/
def CancellationEnds {α : Type} (run : List Event × Except Raised α) : Prop :=
  ∀ before op after, run.1 = before ++ ⟨op, .error .cancelled⟩ :: after →
    (∀ ev ∈ after, ∃ backendId, ev.1 = .release backendId) ∧ run.2 = .error .cancelled

theorem Cancels.ends {α : Type} {run : List Event × Except Raised α}
    (h : Cancels Raises run.1 run.2) : CancellationEnds run := by
  intro before op after htrace
  have hmem : (⟨op, .error .cancelled⟩ : Event) ∈ run.1 := by simp [htrace]
  refine ⟨fun ev hev => ?_, h.told _ hmem .cancelled rfl rfl⟩
  have hpairwise := h.after
  rw [htrace] at hpairwise
  have hlater := (List.pairwise_cons.mp (List.pairwise_append.mp hpairwise).2.1).1 ev hev
    ⟨.cancelled, rfl, rfl⟩
  obtain ⟨op', r'⟩ := ev
  cases op' with
  | release backendId => exact ⟨backendId, rfl⟩
  | _ => exact hlater.elim

/-- In every run of either handler a cancellation, wherever it strikes, is neither swallowed nor
taken for a failure of the backend: no other candidate is tried, and nothing is recorded,
reconciled, cached, logged or counted after it. -/
theorem cancellation_ends (gw : RequestOrchestrator) (req : ChatRequest)
    (answer : List Event → (op : Op) → Reply op)
    (hanswer : ∀ past op, SlotReleased op (answer past op)) :
    CancellationEnds (Program.run answer [] (handleComplete gw req).run) ∧
    CancellationEnds (Program.run answer [] (handleStream gw req).run) :=
  ⟨Cancels.ends (Program.wp_run (cancels_handleComplete gw req) hanswer []),
    Cancels.ends (Program.wp_run (cancels_handleStream gw req) hanswer [])⟩

/-- The client goes away when it gets the first text, from the second candidate. -/
def leavingAnswer : (op : Op) → Reply op
  | .emit _ => .error .cancelled
  | op => failoverAnswer op

theorem cancellation_ends_leaving :
    CancellationEnds (Program.run (fun _ => leavingAnswer) []
      (handleComplete ⟨true, fun _ => "digest"⟩ hiRequest).run) ∧
    CancellationEnds (Program.run (fun _ => leavingAnswer) []
      (handleStream ⟨true, fun _ => "digest"⟩ hiRequest).run) :=
  cancellation_ends ⟨true, fun _ => "digest"⟩ hiRequest (fun _ => leavingAnswer) fun _ op => by
    cases op <;> trivial

end InferenceGateway.Orchestrator
