import InferenceGateway.Library.Schedule
import InferenceGateway.Orchestrator.Bookkeeping
import InferenceGateway.Orchestrator.Books
import InferenceGateway.Orchestrator.Evaluation
import InferenceGateway.Orchestrator.Traces
import InferenceGateway.Orchestrator.World

/-!
# The metrics beside the log

A request counts its cache hit, its answer or its failover after its row of `request_log` has been
written. So whatever is raised in the meantime, the metrics never run ahead of the log, and they
have caught up with it once all requests have ended and no metric was lost. The handlers differ
in what they report: a stream tells neither its latency nor that no backend was left.
-/
namespace InferenceGateway.Orchestrator
open Library Library.Action
open scoped List

variable {α β : Type}

/-! ## What is told, and what should be -/

/-- What a metric tells about a request. -/
inductive Note where
  | hit (labels : List (String × String))
  | answered
  | failover
  | latency (seconds : ℚ)
  deriving DecidableEq, Repr

/-- What an event has told. -/
def tells : Event → List Note
  | ⟨.incr metric labels, .ok _⟩ =>
    if metric = "gateway_cache_hits_total" then [.hit labels]
    else if metric = "gateway_failover_total" then [.failover]
    else if metric = "gateway_backend_calls_total" ∧ ("outcome", "ok") ∈ labels then [.answered]
    else []
  | ⟨.observe metric seconds _, .ok _⟩ =>
    if metric = "gateway_request_latency_seconds" then [.latency seconds] else []
  | _ => []

/-- What a row calls for, in this order. -/
def rowDues (streamed : Bool) (row : RequestLog) : List Note :=
  match row.cacheTier, row.backendId with
  | some tier, _ => [.hit [("tier", tier)]]
  | none, some _ => .answered :: if streamed then [] else [.latency (row.latencyMs / 1000)]
  | none, none => if streamed then [] else [.failover]

/-- What an event calls for, if it has written a row. -/
def dues (streamed : Bool) : Event → List Note
  | ⟨.insertLog row, .ok _⟩ => rowDues streamed row
  | _ => []

def Op.isMetric : Op → Bool
  | .incr .. | .observe .. => true
  | _ => false

/-- Neither writes a row nor tells what a row calls for. -/
def Op.unlogged : Op → Bool
  | .insertLog _ | .observe .. => false
  | .incr metric labels =>
    metric = "gateway_backend_calls_total" ∧ ("outcome", "ok") ∉ labels
  | _ => true

abbrev Unlogged (trace : List Event) : Prop := ∀ ev ∈ trace, ev.1.unlogged = true

/-- The metrics after a row: what it calls for, up to the first that is not told. -/
structure Pays (due : List Note) (trace : List Event) : Prop where
  rowless : ∀ ev ∈ trace, ∀ row, ev.1 ≠ .insertLog row
  told : trace.flatMap tells <+: due
  whole : (∀ ev ∈ trace, ev.1.isMetric = true → ev.2.isOk = true) → trace.flatMap tells = due

/-- The events of a request, by what it does about its row. -/
inductive Reported (streamed : Bool) : List Event → Prop
  | unlogged {trace : List Event} (h : Unlogged trace) : Reported streamed trace
  | refused {before : List Event} {row : RequestLog} {e : Raised} (h : Unlogged before) :
      Reported streamed (before ++ [⟨.insertLog row, .error e⟩])
  | logged {before after : List Event} {row : RequestLog} (h : Unlogged before)
      (hpays : Pays (rowDues streamed row) after) :
      Reported streamed (before ++ ⟨.insertLog row, .ok ()⟩ :: after)

section Traces
variable {streamed : Bool} {trace trace' : List Event} {ev : Event}

theorem tells_of_unlogged (h : ev.1.unlogged = true) : tells ev = [] := by
  obtain ⟨op, r⟩ := ev
  cases op <;> cases r <;> first | rfl | simp_all [Op.unlogged, tells]

theorem dues_of_not_row (h : ∀ row, ev.1 ≠ .insertLog row) : dues streamed ev = [] := by
  obtain ⟨op, r⟩ := ev
  cases op <;> first | rfl | exact absurd rfl (h _)

theorem ne_insertLog_of_unlogged (h : ev.1.unlogged = true) (row : RequestLog) :
    ev.1 ≠ .insertLog row := by
  intro heq
  rw [heq] at h
  exact absurd h (by simp [Op.unlogged])

theorem Unlogged.tells (h : Unlogged trace) : trace.flatMap Orchestrator.tells = [] :=
  List.flatMap_eq_nil_iff.mpr fun ev hev => tells_of_unlogged (h ev hev)

theorem Unlogged.dues (h : Unlogged trace) : trace.flatMap (Orchestrator.dues streamed) = [] :=
  List.flatMap_eq_nil_iff.mpr fun ev hev => dues_of_not_row (ne_insertLog_of_unlogged (h ev hev))

theorem Unlogged.append (h : Unlogged trace) (h' : Unlogged trace') : Unlogged (trace ++ trace') :=
  List.forall_mem_append.mpr ⟨h, h'⟩

/-- What is unlogged pays nothing. -/
theorem Unlogged.pays (h : Unlogged trace) : Pays [] trace where
  rowless ev hev := ne_insertLog_of_unlogged (h ev hev)
  told := by rw [h.tells]
  whole _ := h.tells

theorem Reported.after {before : List Event} (hbefore : Unlogged before)
    (h : Reported streamed trace) : Reported streamed (before ++ trace) := by
  cases h with
  | unlogged h => exact .unlogged (hbefore.append h)
  | refused h =>
    rw [← List.append_assoc]
    exact .refused (hbefore.append h)
  | logged h hpays =>
    rw [← List.append_assoc]
    exact .logged (hbefore.append h) hpays

theorem Pays.dues {due : List Note} (h : Pays due trace) :
    trace.flatMap (Orchestrator.dues streamed) = [] :=
  List.flatMap_eq_nil_iff.mpr fun ev hev => dues_of_not_row (h.rowless ev hev)

/-- At every moment of a request its metrics have told no more than its row calls for. -/
theorem Reported.tells_prefix (h : Reported streamed trace) {past : List Event}
    (hpast : past <+: trace) : past.flatMap tells <+: past.flatMap (dues streamed) := by
  have hunlogged : ∀ {before : List Event}, Unlogged before → past <+: before →
      past.flatMap tells <+: past.flatMap (dues streamed) := fun hbefore hin => by
    have hown : Unlogged past := fun ev hev => hbefore ev (hin.subset hev)
    rw [hown.tells, hown.dues]
  cases h with
  | unlogged h => exact hunlogged h hpast
  | @refused before row e h =>
    obtain rfl | hin := List.prefix_concat_iff.mp hpast
    · simp [h.tells, tells]
    · exact hunlogged h hin
  | @logged before after row h hpays =>
    obtain ⟨later, heq⟩ := hpast
    obtain ⟨rest, rfl, rfl⟩ | ⟨rest, rfl, -⟩ := append_eq_append_cons heq
    · have htold := (List.prefix_append _ _).trans (List.flatMap_append ▸ hpays.told)
      have hrest : rest.flatMap (dues streamed) = [] := List.flatMap_eq_nil_iff.mpr fun ev hev =>
        dues_of_not_row (hpays.rowless ev (List.mem_append_left _ hev))
      simpa [h.tells, h.dues, hrest, tells, dues] using htold
    · exact hunlogged h (List.prefix_append _ _)

/-- Once a request has ended, its metrics have told what its row calls for, if none was lost. -/
theorem Reported.tells_eq (h : Reported streamed trace)
    (hmetrics : ∀ ev ∈ trace, ev.1.isMetric = true → ev.2.isOk = true) :
    trace.flatMap tells = trace.flatMap (dues streamed) := by
  cases h with
  | unlogged h => rw [h.tells, h.dues]
  | refused h => simp [h.tells, h.dues, tells, dues]
  | logged h hpays =>
    have hafter := hpays.whole fun ev hev =>
      hmetrics ev (List.mem_append_right _ (List.mem_cons_of_mem _ hev))
    simp [h.tells, h.dues, hafter, hpays.dues, tells, dues]

end Traces

/-! ## The parts of the handlers -/

section Parts
variable {gw : RequestOrchestrator} {req : ChatRequest} {streamed : Bool} {due : List Note}

theorem admits_anyReply (gw : RequestOrchestrator) (req : ChatRequest) : Admits anyReply gw req :=
  .of_allowed fun _ => trivial

/-- A part that is unlogged. -/
abbrev StaysUnlogged (x : Action α) : Prop := wp anyReply x fun trace _ => Unlogged trace

theorem StaysUnlogged.of_straight {S : Op → Prop} {x : Action α} (h : Straight anyReply S x)
    (hS : ∀ op, S op → op.unlogged = true) : StaysUnlogged x := h.confined hS

theorem StaysUnlogged.call {op : Op} (h : op.unlogged = true) :
    StaysUnlogged (Library.Action.call op : Action (Ret op)) :=
  .of_straight (.call trivial rfl) fun _ heq => heq ▸ h

theorem StaysUnlogged.bind {x : Action α} {f : α → Action β} (hx : StaysUnlogged x)
    (hf : ∀ a, StaysUnlogged (f a)) : StaysUnlogged (x >>= f) :=
  Confined.bind (S := fun op : Op => op.unlogged = true) hx hf

theorem StaysUnlogged.pure (a : α) : StaysUnlogged (pure a : Action α) :=
  Confined.pure (S := fun op : Op => op.unlogged = true) a

theorem StaysUnlogged.throw (e : Raised) : StaysUnlogged (throw e : Action α) :=
  Confined.throw (S := fun op : Op => op.unlogged = true) e

/-- What is reported after a part that is unlogged. -/
theorem StaysUnlogged.reported {x : Action α} {f : α → Action β} (hx : StaysUnlogged x)
    (hf : ∀ a, wp anyReply (f a) fun trace _ => Reported streamed trace) :
    wp anyReply (x >>= f) fun trace _ => Reported streamed trace := by
  refine (wp_bind _).mpr (wp_mono hx fun before r hbefore => ?_)
  cases r with
  | error e => exact .unlogged hbefore
  | ok a => exact wp_mono (hf a) fun _ _ h => h.after hbefore

theorem reported_row {row : RequestLog} {f : Unit → Action α}
    (hf : wp anyReply (f ()) fun trace _ => Pays (rowDues streamed row) trace) :
    wp anyReply (Orchestrator.call (.insertLog row) >>= f) fun trace _ =>
      Reported streamed trace := by
  have hnone : Unlogged [] := List.forall_mem_nil _
  refine wp_call_bind trivial (fun e _ => .refused hnone) fun u _ => ?_
  exact wp_mono hf fun _ _ h => .logged hnone h

/-- One of the metrics that are due. -/
theorem pays_metric {op : Op} {note : Note} {f : Ret op → Action α} (hop : op.isMetric = true)
    (hnote : ∀ a, tells ⟨op, .ok a⟩ = [note])
    (hf : ∀ a, wp anyReply (f a) fun trace _ => Pays due trace) :
    wp anyReply (Orchestrator.call op >>= f) fun trace _ => Pays (note :: due) trace := by
  have hrow : ∀ row, op ≠ .insertLog row := fun row heq => by
    rw [heq] at hop
    exact absurd hop (by simp [Op.isMetric])
  have hlost : ∀ e, tells ⟨op, .error e⟩ = [] := fun e => by
    cases op <;> rfl
  refine wp_call_bind trivial (fun e _ => ?_) fun a _ => wp_mono (hf a) fun trace _ h => ?_
  · refine ⟨by simpa using hrow, by simp [hlost], fun htold => ?_⟩
    exact absurd (htold _ List.mem_cons_self hop) (by simp [Except.isOk, Except.toBool])
  · refine ⟨List.forall_mem_cons.mpr ⟨hrow, h.rowless⟩, ?_, fun htold => ?_⟩
    · simpa [hnote] using h.told
    · simpa [hnote] using h.whole fun ev hev => htold ev (List.mem_cons_of_mem _ hev)

theorem pays_incr (hmetrics : gw.metrics = true) {metric : String}
    {labels : List (String × String)} {note : Note} {f : Unit → Action α}
    (hnote : tells ⟨.incr metric labels, .ok ()⟩ = [note])
    (hf : wp anyReply (f ()) fun trace _ => Pays due trace) :
    wp anyReply (incr gw metric labels >>= f) fun trace _ => Pays (note :: due) trace := by
  unfold incr
  rw [if_pos hmetrics]
  exact pays_metric rfl (fun _ => hnote) fun _ => hf

theorem pays_observe (hmetrics : gw.metrics = true) {metric : String} {value : ℚ}
    {labels : List (String × String)} {note : Note} {f : Unit → Action α}
    (hnote : tells ⟨.observe metric value labels, .ok ()⟩ = [note])
    (hf : wp anyReply (f ()) fun trace _ => Pays due trace) :
    wp anyReply (observe gw metric value labels >>= f) fun trace _ => Pays (note :: due) trace := by
  unfold observe
  rw [if_pos hmetrics]
  exact pays_metric rfl (fun _ => hnote) fun _ => hf

theorem reported_chargeHit (hmetrics : gw.metrics = true) (start : Time)
    (reservation : Resilience.RateLimit.ReservationId) (hit : CacheHit) {f : Unit → Action α}
    (hf : StaysUnlogged (f ())) :
    wp anyReply (chargeHit gw req start reservation hit >>= f) fun trace _ =>
      Reported streamed trace := by
  simp only [chargeHit, bind_assoc]
  refine StaysUnlogged.reported (.call rfl) fun _ => StaysUnlogged.reported (.call rfl) fun _ => ?_
  refine reported_row (pays_incr hmetrics rfl ?_)
  exact wp_mono hf fun _ _ h => h.pays

theorem reported_settle (gw : RequestOrchestrator) (req : ChatRequest) (streamed : Bool)
    (start : Time) (reservation : Resilience.RateLimit.ReservationId)
    (backend : Backend) (content : String) (tokensIn tokensOut : Int)
    (finishReason : Option String) {f : Int → Action α}
    (hf : ∀ latency : Int, wp anyReply (f latency) fun trace _ =>
      Pays (.answered :: if streamed then [] else [.latency (latency / 1000)]) trace) :
    wp anyReply (settle gw req start reservation backend content tokensIn tokensOut finishReason >>=
      f) fun trace _ => Reported streamed trace := by
  simp only [settle, latencyRecord, bind_assoc]
  have hstore := (admits_anyReply gw req).store content tokensIn tokensOut
  refine StaysUnlogged.reported (.call rfl) fun now => ?_
  refine StaysUnlogged.reported (.call rfl) fun _ => ?_
  refine StaysUnlogged.reported (.call rfl) fun _ => StaysUnlogged.reported (.call rfl) fun _ => ?_
  refine StaysUnlogged.reported (.of_straight hstore fun op hop => ?_) fun _ => ?_
  · cases op <;> first | rfl | exact hop.elim
  · exact StaysUnlogged.reported (.call rfl) fun _ => reported_row (hf _)

theorem reported_logUnavailable (start : Time) {f : Unit → Action α}
    (hf : wp anyReply (f ()) fun trace _ =>
      Pays (if streamed then [] else [.failover]) trace) :
    wp anyReply (logUnavailable req start >>= f) fun trace _ => Reported streamed trace := by
  simp only [logUnavailable, bind_assoc]
  exact StaysUnlogged.reported (.call rfl) fun _ => reported_row hf

/-- What a pass through the loop has reported: nothing, if the loop goes on. -/
def PassReported (streamed : Bool) (trace : List Event) : Except Raised (Pass α) → Prop
  | .ok (.next _) => Unlogged trace
  | _ => Reported streamed trace

theorem CallTrace.unlogged {backend : Backend} {client : Client} {call : List Event}
    {r : Except Raised Unit} (h : CallTrace backend client call r) : Unlogged call := by
  intro ev hev
  have hop := h.ops ev hev
  obtain ⟨op, r⟩ := ev
  cases op <;> first | rfl | exact hop.elim

/-- A part of a pass that reports nothing, after the call. -/
theorem passReported_unlogged {call : List Event} (hcall : Unlogged call) {x : Action (Pass α)}
    (hx : StaysUnlogged x) :
    wp anyReply x fun trace r => PassReported streamed (call ++ trace) r := by
  refine wp_mono hx fun trace r htrace => ?_
  have hall : Unlogged (call ++ trace) := hcall.append htrace
  cases r with
  | error e => exact .unlogged hall
  | ok pass =>
    cases pass with
    | next err => exact hall
    | done a => exact .unlogged hall

/-- A part that reports an answer ends the loop. -/
theorem passReported_done {call : List Event} (hcall : Unlogged call) {x : Action β} (a : α)
    (hx : wp anyReply x fun trace _ => Reported streamed trace) :
    wp anyReply (x >>= fun _ => return .done a) fun trace r =>
      PassReported streamed (call ++ trace) r := by
  refine (wp_bind _).mpr (wp_mono hx fun trace r htrace => ?_)
  cases r with
  | error e => exact htrace.after hcall
  | ok b =>
    refine (wp_pure _ _).mpr ?_
    rw [List.append_nil]
    exact htrace.after hcall

theorem passReported_complete (hmetrics : gw.metrics = true) (start : Time)
    (reservation : Resilience.RateLimit.ReservationId) (backend : Backend) (client : Client) :
    wp anyReply (completeWith gw req start reservation backend client) (PassReported false) := by
  unfold completeWith
  refine (wp_bind _).mpr ((wp_attempt _).mpr
    (wp_mono (callTrace_complete (admits_anyReply gw req) backend client) ?_))
  intro call outcome hcall
  have hunlogged : Unlogged call := hcall.1.unlogged
  cases outcome with
  | error e =>
    refine passReported_unlogged hunlogged ?_
    dsimp only
    split
    · refine .bind (.call rfl) fun _ => .bind (.of_straight (straight_incr
        (admits_anyReply gw req) rfl) fun _ heq => ?_) fun _ => .pure _
      rw [← heq]
      simp [Op.unlogged]
    · exact .throw _
  | ok completion =>
    have htold : ∀ latency : Int, wp anyReply (incr gw "gateway_backend_calls_total"
        [("backend", backend.name), ("outcome", "ok")] >>= fun _ =>
        observe gw "gateway_request_latency_seconds" (latency / 1000) [("cache", "miss")] >>=
        fun _ => return ()) fun trace _ => Pays [.answered, .latency (latency / 1000)] trace :=
      fun latency => pays_incr hmetrics (by simp [tells]) (pays_observe hmetrics rfl
        (wp_mono (StaysUnlogged.pure ()) fun _ _ h => h.pays))
    have hanswered := passReported_done hunlogged (⟨completion.content, backend.model,
      completion.tokensIn, completion.tokensOut, some "stop", none, some backend.name⟩ :
      CompletionResult) (reported_settle gw req false start reservation backend completion.content
        completion.tokensIn completion.tokensOut (some "stop") htold)
    simpa only [bind_assoc, pure_bind] using hanswered

theorem passReported_stream (hmetrics : gw.metrics = true) (start : Time)
    (reservation : Resilience.RateLimit.ReservationId) (backend : Backend) (client : Client) :
    wp anyReply (streamWith gw req start reservation backend client) (PassReported true) := by
  unfold streamWith
  refine (wp_bind _).mpr (wp_mono (callTrace_stream (admits_anyReply gw req) backend client) ?_)
  rintro call _ ⟨s, ended, rfl, hcall, -⟩
  have hunlogged : Unlogged call := hcall.unlogged
  cases ended with
  | error e =>
    refine passReported_unlogged hunlogged ?_
    dsimp only
    split
    · refine .bind (.call rfl) fun _ => ?_
      split
      · exact .throw _
      · exact .pure _
    · exact .throw _
  | ok u =>
    have htold : ∀ result, wp anyReply (incr gw "gateway_backend_calls_total"
        [("backend", backend.name), ("outcome", "ok")] >>= fun _ =>
        Orchestrator.call (.emit (.result result))) fun trace _ => Pays [.answered] trace :=
      fun result => pays_incr hmetrics (by simp [tells])
        (wp_mono (StaysUnlogged.call rfl) fun _ _ h => h.pays)
    have hanswered := fun result => passReported_done hunlogged () (reported_settle gw req true
      start reservation backend (String.join s.accumulated) ((s.usage.map Usage.tokensIn).getD 0)
      ((s.usage.map Usage.tokensOut).getD 0) ((s.usage.map Usage.finishReason).getD (some "stop"))
      fun _ => htold result)
    simpa only [bind_assoc] using hanswered _

/-- The failover loop. -/
theorem reported_walk {stopped : Raised} {body : Backend → Client → Action (Pass α)}
    {exhausted : Option Raised → Action α}
    (hbody : ∀ backend client, wp anyReply (body backend client) (PassReported streamed))
    (hexhausted : ∀ err, wp anyReply (exhausted err) fun trace _ => Reported streamed trace)
    (remaining : List (Backend × Client)) (err : Option Raised) :
    wp anyReply (walk req stopped body exhausted remaining err) fun trace _ =>
      Reported streamed trace := by
  suffices h : WalkRule anyReply req stopped body exhausted (fun _ _ => True)
      (fun _ _ trace _ => Reported streamed trace) from h.wp_walk trivial
  have hasked : ∀ {rem : List (Backend × Client)} {chosen : Reply (.select (rem.map Prod.fst)
      (features req))} {id : Uuid} {allowed : Reply (.allow id)}, Unlogged [⟨.select
      (rem.map Prod.fst) (features req), chosen⟩, ⟨.allow id, allowed⟩] :=
    List.forall_mem_cons.mpr ⟨rfl, List.forall_mem_singleton.mpr rfl⟩
  refine ⟨fun _ _ => trivial, fun _ _ _ => .unlogged (List.forall_mem_singleton.mpr rfl),
    fun _ _ _ _ => .unlogged (List.forall_mem_singleton.mpr rfl), fun _ _ => trivial,
    fun _ _ _ => .unlogged hasked, fun _ _ _ _ => ⟨trivial, fun _ _ hrest => hrest.after hasked⟩,
    ?_, fun _ => hexhausted _⟩
  intro rem err chosen backend client _ _ _ _
  refine wp_mono (hbody backend client) fun trace r hr => ?_
  cases r with
  | error e => exact Reported.after hasked hr
  | ok pass =>
    cases pass with
    | done a => exact Reported.after hasked hr
    | next err' =>
      exact ⟨trivial, fun _ _ hrest => Reported.after hasked (hrest.after hr)⟩

/-- Both handlers. -/
theorem reported_pipeline (gw : RequestOrchestrator) (req : ChatRequest)
    {charged : Time → Resilience.RateLimit.ReservationId → CacheHit → Action α}
    {loop : Time → Resilience.RateLimit.ReservationId → List (Backend × Client) → Action α}
    (hcharged : ∀ start reservation hit,
      wp anyReply (charged start reservation hit) fun trace _ => Reported streamed trace)
    (hloop : ∀ start reservation remaining,
      wp anyReply (loop start reservation remaining) fun trace _ => Reported streamed trace) :
    wp anyReply (pipeline gw req charged loop) fun trace _ => Reported streamed trace := by
  have hlead : ∀ {start : Reply .perfCounter} {lead : List Event},
      (∀ ev ∈ lead, LeadOp req ev.1) → Unlogged (⟨.perfCounter, start⟩ :: lead) := by
    intro start lead h
    refine List.forall_mem_cons.mpr ⟨rfl, fun ev hev => ?_⟩
    have hop := h ev hev
    obtain ⟨op, r⟩ := ev
    cases op <;> first | rfl | exact hop.elim
  refine wp_pipeline (admits_anyReply gw req) (fun start lead r h => .unlogged (hlead h))
    (fun start reservation hit lead h => ?_) fun start reservation remaining lead h => ?_
  · exact wp_mono (hcharged start reservation hit) fun _ _ hr => hr.after (hlead h)
  · exact wp_mono (hloop start reservation remaining) fun _ _ hr => hr.after (hlead h)

theorem reported_handleComplete (hmetrics : gw.metrics = true) (req : ChatRequest) :
    wp anyReply (handleComplete gw req) fun trace _ => Reported false trace := by
  refine reported_pipeline gw req (fun start reservation hit => ?_)
    fun start reservation remaining => ?_
  · exact reported_chargeHit hmetrics start reservation hit (.pure _)
  · refine reported_walk (passReported_complete hmetrics start reservation) (fun err => ?_)
      remaining none
    refine reported_logUnavailable start (pays_incr hmetrics rfl ?_)
    exact wp_mono (StaysUnlogged.throw _) fun _ _ h => h.pays

theorem reported_handleStream (hmetrics : gw.metrics = true) (req : ChatRequest) :
    wp anyReply (handleStream gw req) fun trace _ => Reported true trace := by
  refine reported_pipeline gw req (fun start reservation hit => ?_)
    fun start reservation remaining => ?_
  · exact reported_chargeHit hmetrics start reservation hit (.bind (.call rfl) fun _ => .call rfl)
  · refine reported_walk (passReported_stream hmetrics start reservation) (fun err => ?_)
      remaining none
    exact reported_logUnavailable start (wp_mono (StaysUnlogged.throw _) fun _ _ h => h.pays)

end Parts

/-! ## Requests in any number -/

/-- Chat requests, streamed or not by their tags, with any replies. -/
def requests (gw : RequestOrchestrator) (streams : Nat → Bool) :
    Pool.System Nat Unit Op Reply Outcome where
  initial := ()
  starts tag p := ∃ req : ChatRequest,
    p = if streams tag then Outcome.streamed <$> (handleStream gw req).run
      else Outcome.completed <$> (handleComplete gw req).run
  handle _ _ _ _ := True
  drift _ _ := False

section Runs
variable {gw : RequestOrchestrator} {streams : Nat → Bool}
  {w : Pool Nat Unit Op Reply Outcome} {task : Nat × Program Op Reply Outcome}

theorem reported_of_starts (hmetrics : gw.metrics = true) {tag : Nat}
    {p : Program Op Reply Outcome} (h : (requests gw streams).starts tag p) :
    Program.wp anyReply p fun trace _ => Reported (streams tag) trace := by
  obtain ⟨req, rfl⟩ := h
  cases streams tag with
  | true => exact (Program.wp_map _ _).mpr (reported_handleStream hmetrics req)
  | false => exact (Program.wp_map _ _).mpr (reported_handleComplete hmetrics req)

/-- A request has told no more than its row calls for. -/
theorem tells_prefix_dues (hmetrics : gw.metrics = true)
    (h : Pool.Reachable (requests gw streams) w) (hnodup : (w.tasks.map Prod.fst).Nodup)
    (htask : task ∈ w.tasks) :
    (Pool.own task.1 w.history).flatMap tells <+:
      (Pool.own task.1 w.history).flatMap (dues (streams task.1)) := by
  obtain ⟨p, hstart, hfollows⟩ := h.follows hnodup task htask
  obtain ⟨rest, outcome, hreported⟩ := hfollows.exists_end (reported_of_starts hmetrics hstart)
    (fun _ _ => trivial) fun op => ⟨.error .cancelled, trivial⟩
  exact hreported.tells_prefix (List.prefix_append _ _)

/-- A request that has ended has told all of it, if no metric was lost. -/
theorem tells_eq_dues (hmetrics : gw.metrics = true)
    (h : Pool.Reachable (requests gw streams) w) (hnodup : (w.tasks.map Prod.fst).Nodup)
    (htask : task ∈ w.tasks) {outcome : Outcome} (hended : task.2 = .pure outcome)
    (hkept : ∀ e ∈ w.history, e.2.1.isMetric = true → e.2.2.isOk = true) :
    (Pool.own task.1 w.history).flatMap tells =
      (Pool.own task.1 w.history).flatMap (dues (streams task.1)) := by
  obtain ⟨p, hstart, hfollows⟩ := h.follows hnodup task htask
  rw [hended] at hfollows
  have hreported := hfollows.ended (reported_of_starts hmetrics hstart) fun _ _ => trivial
  exact hreported.tells_eq fun ev hev => hkept (task.1, ev) (Pool.mem_own.mp hev)

end Runs

/-- In every run of requests with metrics enabled, whatever is replied, the metrics have at no
moment told more than the written rows call for; and exactly that once all requests have ended,
if no metric was lost. -/
theorem metrics_follow_log (gw : RequestOrchestrator) (streams : Nat → Bool)
    (hmetrics : gw.metrics = true) {w : Pool Nat Unit Op Reply Outcome}
    (hreach : Pool.Reachable (requests gw streams) w) (hnodup : (w.tasks.map Prod.fst).Nodup) :
    let told := w.history.flatMap fun e => tells e.2
    let due := w.history.flatMap fun e => dues (streams e.1) e.2
    told <+~ due ∧
      ((∀ task ∈ w.tasks, ∃ outcome, task.2 = .pure outcome) →
        (∀ e ∈ w.history, e.2.1.isMetric = true → e.2.2.isOk = true) → told ~ due) := by
  have hsub := Pool.subperm_of_own (fun _ => tells) (fun tag => dues (streams tag)) hnodup
    hreach.mem_tags
  have hperm := Pool.perm_of_own (fun _ => tells) (fun tag => dues (streams tag)) hnodup
    hreach.mem_tags
  refine ⟨hsub fun tag htag => ?_, fun hended hkept => hperm fun tag htag => ?_⟩
  · obtain ⟨task, htask, rfl⟩ := List.mem_map.mp htag
    exact (tells_prefix_dues hmetrics hreach hnodup htask).sublist
  · obtain ⟨task, htask, rfl⟩ := List.mem_map.mp htag
    obtain ⟨outcome, heq⟩ := hended task htask
    exact tells_eq_dues hmetrics hreach hnodup htask heq hkept

/-- A request and a stream of the same prompt, both answered by the second candidate. -/
def bothForms : Pool Nat Unit Op Reply Outcome :=
  Pool.schedule (fun _ op => (failoverAnswer op, ()))
    { state := ()
      history := []
      tasks := [(0, Outcome.completed <$> (handleComplete ⟨true, fun _ => ""⟩ hiRequest).run),
        (1, Outcome.streamed <$> (handleStream ⟨true, fun _ => ""⟩ hiRequest).run)] }
    (List.replicate 40 0 ++ List.replicate 40 1)

theorem bothForms_reachable :
    Pool.Reachable (requests ⟨true, fun _ => ""⟩ (· == 1)) bothForms := by
  refine .schedule (fun _ _ => trivial) (.starts .initial ?_) _
  simp only [List.forall_mem_cons]
  exact ⟨⟨hiRequest, rfl⟩, ⟨hiRequest, rfl⟩, nofun⟩

/-- The stream tells no latency. -/
theorem metrics_follow_log_forms :
    let told := bothForms.history.flatMap fun e => tells e.2
    let due := bothForms.history.flatMap fun e => dues (e.1 == 1) e.2
    told = [.answered, .latency 0, .answered] ∧ told <+~ due ∧ told ~ due := by
  have hchecked : (bothForms.tasks.map Prod.fst).Nodup ∧
      bothForms.tasks.all (fun task => Pool.isPure task.2) = true ∧
      (bothForms.history.all fun e => !e.2.1.isMetric || e.2.2.isOk) = true ∧
      (bothForms.history.flatMap fun e => tells e.2) = [.answered, .latency 0, .answered] := by
    unfold bothForms handleComplete handleStream
    rw [walk_evaluates]
    decide +kernel
  obtain ⟨hnodup, hended, hkept, htold⟩ := hchecked
  obtain ⟨hsub, hall⟩ :=
    metrics_follow_log ⟨true, fun _ => ""⟩ (· == 1) rfl bothForms_reachable hnodup
  refine ⟨htold, hsub, hall (fun task htask => ?_) fun e he hmetric => ?_⟩
  · exact Pool.isPure_iff.mp (List.all_eq_true.mp hended task htask)
  · simpa [hmetric] using List.all_eq_true.mp hkept e he

end InferenceGateway.Orchestrator
