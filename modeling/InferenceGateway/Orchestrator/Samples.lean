import InferenceGateway.Library.Schedule
import InferenceGateway.Orchestrator.Bookkeeping
import InferenceGateway.Orchestrator.Evaluation
import InferenceGateway.Orchestrator.Provenance
import InferenceGateway.Orchestrator.Traces
import Mathlib.Tactic.Ring

/-!
# Latency samples

A sample is recorded for a backend when its call has been answered. What is recorded is the
time since the request has started, so next to the time of the call it holds all the time
that the request has spent before, in the limiter, in the cache and with other candidates.
-/
namespace InferenceGateway.Orchestrator
open Library Library.Action

variable {α β : Type}

/-! ## Where samples come from -/

def Op.samples : Op → Bool
  | .lpush .. => true
  | _ => false

/-- Every sample comes right after a call that has been answered, and says how much time
has gone by since the start. -/
def Sampled (start : Time) (trace : List Event) : Prop :=
  ∀ before backendId sample pushed after,
    trace = before ++ ⟨.lpush backendId sample, pushed⟩ :: after →
    ∃ earlier backend client call now recorded, backend.id = backendId ∧
      CallTrace backend client call (.ok ()) ∧
      before = earlier ++ call ++
        [⟨.perfCounter, .ok now⟩, ⟨.record backend.id true, recorded⟩] ∧
      sample = latencyMs start now

section Sampled
variable {start : Time} {trace trace' : List Event}

theorem CallTrace.unsampled {backend : Backend} {client : Client} {r : Except Raised Unit}
    (h : CallTrace backend client trace r) : ∀ ev ∈ trace, ev.1.samples = false := by
  intro ev hev
  have hop := h.ops ev hev
  obtain ⟨op, r⟩ := ev
  cases op <;> first | rfl | exact hop.elim

theorem Sampled.of_unsampled (h : ∀ ev ∈ trace, ev.1.samples = false) : Sampled start trace := by
  rintro before backendId sample pushed after rfl
  have hlast := h ⟨.lpush backendId sample, pushed⟩ (by simp)
  simp [Op.samples] at hlast

theorem Sampled.append (h : Sampled start trace) (h' : Sampled start trace') :
    Sampled start (trace ++ trace') := by
  intro before backendId sample pushed after heq
  rcases append_eq_append_cons heq with ⟨rest, rfl, -⟩ | ⟨rest, rfl, hrest⟩
  · exact h before backendId sample pushed rest rfl
  · obtain ⟨earlier, backend, client, call, now, recorded, hid, hcall, rfl, hsample⟩ :=
      h' rest backendId sample pushed after hrest
    exact ⟨trace ++ earlier, backend, client, call, now, recorded, hid, hcall, by simp, hsample⟩

theorem Sampled.cons {ev : Event} (hev : ev.1.samples = false) (h : Sampled start trace) :
    Sampled start (ev :: trace) :=
  Sampled.append (.of_unsampled (List.forall_mem_singleton.mpr hev)) h

/-- The books of an answer record one sample, with the reading of the clock that follows the
call. -/
theorem Sampled.of_answered {backend : Backend} {client : Client} {call : List Event} {now : Time}
    {recorded : Reply (.record backend.id true)}
    {pushed : Reply (.lpush backend.id (latencyMs start now))}
    (hcall : CallTrace backend client call (.ok ())) (h : ∀ ev ∈ trace, ev.1.samples = false) :
    Sampled start (call ++ ⟨.perfCounter, .ok now⟩ :: ⟨.record backend.id true, recorded⟩ ::
      ⟨.lpush backend.id (latencyMs start now), pushed⟩ :: trace) := by
  have hquiet : ∀ ev ∈ call ++ [⟨.perfCounter, .ok now⟩, ⟨.record backend.id true, recorded⟩],
      ev.1.samples = false :=
    List.forall_mem_append.mpr ⟨hcall.unsampled, by simp [Op.samples]⟩
  intro before backendId sample pushed' after heq
  have hbooks : before = call ++ [⟨.perfCounter, .ok now⟩, ⟨.record backend.id true, recorded⟩] ∧
      (⟨.lpush backendId sample, pushed'⟩ : Event) =
        ⟨.lpush backend.id (latencyMs start now), pushed⟩ := by
    rw [List.append_cons, List.append_cons, List.append_assoc call] at heq
    rcases append_eq_append_cons heq with ⟨rest, hquiet', -⟩ | ⟨rest, rfl, hrest⟩
    · have hearlier := hquiet ⟨.lpush backendId sample, pushed'⟩ (hquiet'.symm ▸ by simp)
      simp [Op.samples] at hearlier
    · rcases List.cons_eq_append_iff.mp hrest with ⟨rfl, hcons⟩ | ⟨rest', rfl, rfl⟩
      · exact ⟨List.append_nil _, (List.cons.inj hcons).1⟩
      · have hlater := h ⟨.lpush backendId sample, pushed'⟩ (by simp)
        simp [Op.samples] at hlater
  obtain ⟨rfl, hpush⟩ := hbooks
  obtain ⟨rfl, rfl⟩ := Op.lpush.inj (congrArg Sigma.fst hpush)
  exact ⟨[], backend, client, call, now, recorded, rfl, hcall, rfl, rfl⟩

end Sampled

/-! ## Parts that record no sample -/

/-- The action records no sample. -/
def Unsampled (C : Contract) (x : Action α) : Prop :=
  wp C x fun trace _ => ∀ ev ∈ trace, ev.1.samples = false

section Unsampled
variable {C : Contract} {x : Action α} {f : α → Action β}

theorem Unsampled.pure (a : α) : Unsampled C (pure a : Action α) :=
  Confined.pure (S := fun op : Op => op.samples = false) a

theorem Unsampled.throw (e : Raised) : Unsampled C (throw e : Action α) :=
  Confined.throw (S := fun op : Op => op.samples = false) e

theorem Unsampled.of_straight {S : Op → Prop} (h : Straight C S x)
    (hS : ∀ op, S op → op.samples = false) : Unsampled C x := h.confined hS

theorem Unsampled.bind (hx : Unsampled C x) (hf : ∀ a, Unsampled C (f a)) :
    Unsampled C (x >>= f) :=
  Confined.bind (S := fun op : Op => op.samples = false) hx hf

theorem Unsampled.perform {op : Op} {f : Ret op → Action β} (hallowed : C.allowed op)
    (hop : op.samples = false) (hf : ∀ a, Unsampled C (f a)) :
    Unsampled C (Library.Action.call op >>= f) :=
  Unsampled.bind (.of_straight (.call hallowed hop) fun _ => id) hf

end Unsampled

/-! ## The handlers record samples of their calls -/

section Parts
variable {C : Contract} {gw : RequestOrchestrator} {req : ChatRequest}

theorem unsampled_incr (hC : Admits C gw req) (metric : String) (labels : List (String × String)) :
    Unsampled C (incr gw metric labels) :=
  .of_straight (straight_incr hC rfl) fun _ hop => hop ▸ rfl

theorem unsampled_observe (hC : Admits C gw req) (metric : String) (value : ℚ)
    (labels : List (String × String)) : Unsampled C (observe gw metric value labels) :=
  .of_straight (straight_observe hC rfl) fun _ hop => hop ▸ rfl

theorem unsampled_store (hC : Admits C gw req) (content : String) (tokensIn tokensOut : Int) :
    Unsampled C (store gw req content tokensIn tokensOut) :=
  .of_straight (hC.store content tokensIn tokensOut) fun op hop => by
    cases op <;> first | rfl | exact hop.elim

/-- The books of an answer, of which the first three entries are those of the sample. -/
theorem sampled_settle (hC : Admits C gw req) (start : Time)
    (reservation : Resilience.RateLimit.ReservationId) {backend : Backend} {client : Client}
    {call : List Event} (hcall : CallTrace backend client call (.ok ())) (content : String)
    (tokensIn tokensOut : Int) (finishReason : Option String) {f : Int → Action α}
    (hf : ∀ latency, Unsampled C (f latency)) :
    wp C (settle gw req start reservation backend content tokensIn tokensOut finishReason >>= f)
      fun trace _ => Sampled start (call ++ trace) := by
  have hearly : ∀ {trace : List Event}, (∀ ev ∈ trace, ev.1.samples = false) →
      Sampled start (call ++ trace) := fun h =>
    .of_unsampled (List.forall_mem_append.mpr ⟨hcall.unsampled, h⟩)
  simp only [settle, latencyRecord, bind_assoc]
  refine wp_call_bind (hC.allowed _ rfl) (fun e _ => hearly (by simp [Op.samples])) fun now _ => ?_
  refine wp_call_bind (hC.allowed _ rfl) (fun e _ => hearly (by simp [Op.samples]))
    fun recorded _ => ?_
  refine wp_call_bind (hC.allowed _ rfl)
    (fun e _ => .of_answered hcall (by simp)) fun pushed _ => ?_
  have hrest : Unsampled C (Library.Action.call (.ltrim backend.id) >>= fun _ =>
      store gw req content tokensIn tokensOut >>= fun _ =>
      Library.Action.call (.reconcile req.apiKey.id reservation (tokensIn + tokensOut)) >>= fun _ =>
      Library.Action.call (.insertLog {
        apiKeyId := req.apiKey.id, model := req.model, latencyMs := latencyMs start now,
        status := 200, backendId := some backend.id, tokensIn, tokensOut,
        cost := cost backend tokensIn tokensOut, finishReason }) >>= fun _ =>
      f (latencyMs start now)) := by
    refine Unsampled.perform (hC.allowed _ rfl) rfl fun _ => ?_
    refine (unsampled_store hC content tokensIn tokensOut).bind fun _ => ?_
    refine Unsampled.perform (hC.allowed _ rfl) rfl fun _ => ?_
    exact Unsampled.perform (hC.allowed _ rfl) rfl fun _ => hf _
  simp only [pure_bind]
  exact wp_mono hrest fun trace r hr => .of_answered hcall hr

theorem sampled_complete (hC : Admits C gw req) (start : Time)
    (reservation : Resilience.RateLimit.ReservationId) (backend : Backend) (client : Client) :
    wp C (completeWith gw req start reservation backend client)
      fun trace _ => Sampled start trace := by
  unfold completeWith
  refine (wp_bind _).mpr ((wp_attempt _).mpr (wp_mono (callTrace_complete hC backend client) ?_))
  intro call outcome hcall
  cases outcome with
  | error e =>
    have hfailed : Unsampled C (if e.isException then
        Library.Action.call (.record backend.id false) >>= fun _ =>
          incr gw "gateway_backend_calls_total"
            [("backend", backend.name), ("outcome", "error")] >>= fun _ =>
          return (.next (some e) : Pass CompletionResult) else throw e) := by
      split
      · refine Unsampled.perform (hC.allowed _ rfl) rfl fun _ => ?_
        exact (unsampled_incr hC _ _).bind fun _ => .pure _
      · exact .throw e
    exact wp_mono hfailed fun trace r hr =>
      .append (.of_unsampled hcall.1.unsampled) (.of_unsampled hr)
  | ok completion =>
    refine sampled_settle hC start reservation hcall.1 _ _ _ _ fun latency => ?_
    refine (unsampled_incr hC _ _).bind fun _ => ?_
    exact (unsampled_observe hC _ _ _).bind fun _ => .pure _

theorem sampled_stream (hC : Admits C gw req) (start : Time)
    (reservation : Resilience.RateLimit.ReservationId) (backend : Backend) (client : Client) :
    wp C (streamWith gw req start reservation backend client)
      fun trace _ => Sampled start trace := by
  unfold streamWith
  refine (wp_bind _).mpr (wp_mono (callTrace_stream hC backend client) ?_)
  intro call outcome hcall
  obtain ⟨s, ended, rfl, hcall, -⟩ := hcall
  cases ended with
  | error e =>
    have hfailed : Unsampled C (if e.isException then
        Library.Action.call (.record backend.id false) >>= fun _ =>
          if s.anyYielded then throw (.allBackendsUnavailable (some e))
          else return (.next (some e) : Pass Unit)
        else throw e) := by
      split
      · refine Unsampled.perform (hC.allowed _ rfl) rfl fun _ => ?_
        split
        · exact .throw _
        · exact .pure _
      · exact .throw e
    exact wp_mono hfailed fun trace r hr =>
      .append (.of_unsampled hcall.unsampled) (.of_unsampled hr)
  | ok u =>
    refine sampled_settle hC start reservation hcall _ _ _ _ fun latency => ?_
    refine (unsampled_incr hC _ _).bind fun _ => ?_
    exact Unsampled.perform (hC.allowed _ rfl) rfl fun _ => .pure _

/-- The failover loop. -/
theorem sampled_walk (hC : Admits C gw req) (start : Time) {stopped : Raised}
    {body : Backend → Client → Action (Pass α)} {exhausted : Option Raised → Action α}
    (hbody : ∀ backend client, wp C (body backend client) fun trace _ => Sampled start trace)
    (hexhausted : ∀ err, Unsampled C (exhausted err)) (remaining : List (Backend × Client))
    (err : Option Raised) :
    wp C (walk req stopped body exhausted remaining err) fun trace _ => Sampled start trace := by
  have hquiet : ∀ {trace : List Event}, (∀ ev ∈ trace, ev.1.samples = false) →
      Sampled start trace := .of_unsampled
  suffices h : WalkRule C req stopped body exhausted (fun _ _ => True)
      (fun _ _ trace _ => Sampled start trace) from h.wp_walk trivial
  refine ⟨fun _ _ => hC.allowed _ rfl, fun _ _ _ => hquiet (by simp [Op.samples]),
    fun _ _ _ _ => hquiet (by simp [Op.samples]), fun _ _ => hC.allowed _ rfl,
    fun _ _ _ => hquiet (by simp [Op.samples]), ?_, ?_, fun _ => ?_⟩
  · exact fun _ _ _ _ => ⟨trivial, fun _ _ hrest => .cons rfl (.cons rfl hrest)⟩
  · intro rem err chosen backend client _ _ _ _
    refine wp_mono (hbody backend client) fun trace r hr => ?_
    cases r with
    | error e => exact .cons rfl (.cons rfl hr)
    | ok pass =>
      cases pass with
      | done a => exact .cons rfl (.cons rfl hr)
      | next err' => exact ⟨trivial, fun _ _ hrest => .cons rfl (.cons rfl (hr.append hrest))⟩
  · exact wp_mono (hexhausted _) fun _ _ hr => hquiet hr

theorem unsampled_logUnavailable (hC : Admits C gw req) (start : Time) {x : Action α}
    (hx : Unsampled C x) : Unsampled C (logUnavailable req start >>= fun _ => x) := by
  refine Unsampled.bind (.of_straight (straight_logUnavailable (S := fun op => op.samples = false)
    hC (fun op hop => ?_) (fun _ => rfl) start) fun _ => id) fun _ => hx
  cases op <;> first | rfl | exact hop.elim

theorem unsampled_chargeHit (hC : Admits C gw req) (start : Time)
    (reservation : Resilience.RateLimit.ReservationId) (hit : CacheHit) :
    Unsampled C (chargeHit gw req start reservation hit) := by
  refine .of_straight (straight_chargeHit (S := fun op : Op => op.samples = false) hC
    (fun op hop => ?_) (fun _ => rfl) (fun _ => rfl) start reservation hit) fun _ => id
  cases op <;> first | rfl | exact hop.elim

/-- A run begins with a reading of the clock, and its samples are measured from there. -/
def StartSampled (trace : List Event) : Prop :=
  ∃ reply rest, trace = ⟨.perfCounter, reply⟩ :: rest ∧
    ∀ start, reply = .ok start → Sampled start trace

/-- Both handlers. -/
theorem sampled_pipeline (hC : Admits C gw req)
    {charged : Time → Resilience.RateLimit.ReservationId → CacheHit → Action α}
    {loop : Time → Resilience.RateLimit.ReservationId → List (Backend × Client) → Action α}
    (hcharged : ∀ start reservation hit, Unsampled C (charged start reservation hit))
    (hloop : ∀ start reservation remaining,
      wp C (loop start reservation remaining) fun trace _ => Sampled start trace) :
    wp C (pipeline gw req charged loop) fun trace _ => StartSampled trace := by
  have hquiet : ∀ {lead : List Event}, (∀ ev ∈ lead, LeadOp req ev.1) →
      ∀ ev ∈ lead, ev.1.samples = false := fun h ev hev => by
    have hop := h ev hev
    obtain ⟨op, r⟩ := ev
    cases op <;> first | rfl | exact hop.elim
  refine wp_pipeline hC (fun reply lead r hlead => ?_) (fun start reservation hit lead hlead => ?_)
    fun start reservation remaining lead hlead => ?_
  · exact ⟨reply, lead, rfl, fun _ _ => .cons rfl (.of_unsampled (hquiet hlead))⟩
  · refine wp_mono (hcharged start reservation hit) fun trace r hr => ⟨_, _, rfl, fun _ _ => ?_⟩
    exact .cons rfl (.append (.of_unsampled (hquiet hlead)) (.of_unsampled hr))
  · refine wp_mono (hloop start reservation remaining) fun trace r hr => ⟨_, _, rfl, fun _ h => ?_⟩
    obtain rfl := Except.ok.inj h
    exact .cons rfl (.append (.of_unsampled (hquiet hlead)) hr)

theorem Starts.sampled {model : String} {p : Program Op Reply Outcome}
    (hstart : Starts gw (.request model) p) :
    Program.wp (.expecting fun _ _ => True) p fun trace _ => StartSampled trace := by
  have hC : ∀ req, Admits (.expecting fun _ _ => True) gw req := fun req =>
    .of_allowed fun _ => trivial
  cases hstart with
  | complete req =>
    refine (Program.wp_map _ _).mpr (sampled_pipeline (hC req) (fun start reservation hit => ?_)
      fun start reservation remaining => ?_)
    · exact (unsampled_chargeHit (hC req) start reservation hit).bind fun _ => .pure _
    · refine sampled_walk (hC req) start (sampled_complete (hC req) start reservation)
        (fun err => ?_) remaining none
      refine unsampled_logUnavailable (hC req) start ?_
      exact (unsampled_incr (hC req) _ _).bind fun _ => .throw _
  | stream req =>
    refine (Program.wp_map _ _).mpr (sampled_pipeline (hC req) (fun start reservation hit => ?_)
      fun start reservation remaining => ?_)
    · refine (unsampled_chargeHit (hC req) start reservation hit).bind fun _ => ?_
      refine Unsampled.perform trivial rfl fun _ => ?_
      exact .of_straight (.call trivial rfl) fun op hop => hop ▸ rfl
    · refine sampled_walk (hC req) start (sampled_stream (hC req) start reservation)
        (fun err => ?_) remaining none
      exact unsampled_logUnavailable (hC req) start (.throw _)

end Parts

/-! ## Runs against a clock -/

/-- What answers a request, and the time when each of its operations has been answered. -/
structure Timed where
  answer : List Event → (op : Op) → Reply op
  clock : List Event → Time
  forward : ∀ past ev, clock past ≤ clock (past ++ [ev])
  reads : ∀ past, answer past .perfCounter = .ok (clock past)

namespace Timed

def run (env : Timed) (p : Program Op Reply Outcome) : List Event :=
  (Program.run env.answer [] p).1

/-- In a run of the request the backend answers a call that has begun this long after the
request and has taken this long, and this sample is recorded for it. -/
def Serves (env : Timed) (p : Program Op Reply Outcome) (backendId : Uuid) (before own : Time)
    (sample : Int) : Prop :=
  ∃ earlier backend client inside now recorded pushed later, backend.id = backendId ∧
    env.run p = earlier ++ ⟨.acquire backend.id, .ok ()⟩ :: inside ++
      ⟨.perfCounter, now⟩ :: ⟨.record backend.id true, recorded⟩ ::
      ⟨.lpush backend.id sample, pushed⟩ :: later ∧
    CallTrace backend client (⟨.acquire backend.id, .ok ()⟩ :: inside) (.ok ()) ∧
    before = env.clock (earlier ++ [⟨.acquire backend.id, .ok ()⟩]) - env.clock [] ∧
    own = env.clock (earlier ++ ⟨.acquire backend.id, .ok ()⟩ :: inside) -
      env.clock (earlier ++ [⟨.acquire backend.id, .ok ()⟩])

end Timed

/-- The milliseconds that are recorded for this much time. -/
def millis (t : Time) : Int := truncate (double (double t * 1000))

section Runs
variable {gw : RequestOrchestrator} {model : String} {p : Program Op Reply Outcome} {env : Timed}
  {backendId : Uuid} {before own : Time} {sample : Int}

theorem Timed.sampled (env : Timed) (hstart : Starts gw (.request model) p) :
    Sampled (env.clock []) (env.run p) := by
  obtain ⟨reply, rest, hrun, hsampled⟩ : StartSampled (env.run p) :=
    Program.wp_run hstart.sampled (fun _ _ => trivial) []
  have hanswered := Program.run_answered env.answer [] p
  change Justified _ [] (env.run p) at hanswered
  rw [hrun] at hanswered
  exact hsampled _ (hanswered.1.trans (env.reads []))

/-- What is recorded is the time before the call and the time of the call. -/
theorem Timed.Serves.sample_eq (hstart : Starts gw (.request model) p)
    (h : env.Serves p backendId before own sample) : sample = millis (before + own) := by
  obtain ⟨earlier, backend, client, inside, now, recorded, pushed, later, rfl, hrun, hcall, rfl,
    rfl⟩ := h
  have hanswered := Program.run_answered env.answer [] p
  change Justified _ [] (env.run p) at hanswered
  rw [hrun] at hanswered
  have hnow : now = .ok (env.clock (earlier ++ ⟨.acquire backend.id, .ok ()⟩ :: inside)) :=
    hanswered.split.trans (env.reads _)
  obtain ⟨earlier', backend', client', call', now', recorded', -, -, hbefore, rfl⟩ :=
    env.sampled hstart (earlier ++ ⟨.acquire backend.id, .ok ()⟩ :: inside ++
      [⟨.perfCounter, now⟩, ⟨.record backend.id true, recorded⟩]) backend.id sample pushed later
      (by simpa using hrun)
  have hclock := (List.cons.inj (List.append_inj' hbefore rfl).2).1
  have hnow' : now' = env.clock (earlier ++ ⟨.acquire backend.id, .ok ()⟩ :: inside) := by
    have hreply := eq_of_heq (Sigma.mk.inj hclock).2
    rw [hnow] at hreply
    exact (Except.ok.inj hreply).symm
  have helapsed : env.clock (earlier ++ [⟨.acquire backend.id, .ok ()⟩]) - env.clock [] +
      (env.clock (earlier ++ ⟨.acquire backend.id, .ok ()⟩ :: inside) -
        env.clock (earlier ++ [⟨.acquire backend.id, .ok ()⟩])) = now' - env.clock [] := by
    rw [hnow']
    ring
  rw [helapsed]
  rfl

end Runs

/-- Two requests that are answered by calls of the same backend, which take the same time,
record the same sample for it exactly if they come to the same number of milliseconds with
the time that each has spent before its call. -/
theorem samples_agree_iff (gw : RequestOrchestrator) {model₁ model₂ : String}
    {p₁ p₂ : Program Op Reply Outcome} (hstart₁ : Starts gw (.request model₁) p₁)
    (hstart₂ : Starts gw (.request model₂) p₂) (env₁ env₂ : Timed) {backendId : Uuid}
    {before₁ before₂ own : Time} {sample₁ sample₂ : Int}
    (hserves₁ : env₁.Serves p₁ backendId before₁ own sample₁)
    (hserves₂ : env₂.Serves p₂ backendId before₂ own sample₂) :
    sample₁ = sample₂ ↔ millis (before₁ + own) = millis (before₂ + own) := by
  rw [hserves₁.sample_eq hstart₁, hserves₂.sample_eq hstart₂]

/-! ## A slow candidate before a fast one -/

/-- How long the backends take to answer. -/
def callTime : Event → Time
  | ⟨.complete ⟨0⟩ .., _⟩ => 30
  | ⟨.complete .., _⟩ => 1
  | _ => 0

def totalTime (past : List Event) : Time := (past.map callTime).sum

/-- The first candidate fails after half a minute, if its breaker admits it. -/
def slowFirst (admitted : Bool) : Timed where
  answer past
    | .perfCounter => .ok (totalTime past)
    | .allow 0 => .ok admitted
    | op => failoverAnswer op
  clock := totalTime
  forward past ev := by
    have htime : 0 ≤ callTime ev := by
      unfold callTime
      split <;> norm_num
    simpa [totalTime] using htime
  reads _ := rfl

def hiCompletion : Program Op Reply Outcome :=
  Outcome.completed <$> (handleComplete zeroDigest hiRequest).run

/-- An answer of a completion, from its place in a run. -/
theorem Timed.Serves.of_drop {env : Timed} {p : Program Op Reply Outcome} {n : Nat}
    (backend : Backend) {client : Client} {messages : List ChatMessage} {model : String}
    {completion : Completion} {now : Reply .perfCounter} {sample : Int}
    {recorded : Reply (.record backend.id true)} {pushed : Reply (.lpush backend.id sample)}
    {later : List Event}
    (h : (env.run p).drop n = ⟨.acquire backend.id, .ok ()⟩ ::
      ⟨.complete client messages model, .ok completion⟩ :: ⟨.release backend.id, .ok ()⟩ ::
      ⟨.perfCounter, now⟩ :: ⟨.record backend.id true, recorded⟩ ::
      ⟨.lpush backend.id sample, pushed⟩ :: later) :
    env.Serves p backend.id (env.clock ((env.run p).take (n + 1)) - env.clock [])
      (env.clock ((env.run p).take (n + 3)) - env.clock ((env.run p).take (n + 1))) sample := by
  let opening : Event := ⟨.complete client messages model, .ok completion⟩
  have hopens : Opens client opening.1 := rfl
  have hended : Ended [opening] (.ok () : Except Raised Unit) := by simp [opening, Ended, Smooth]
  refine ⟨(env.run p).take n, backend, client, [opening, ⟨.release backend.id, .ok ()⟩], now,
    recorded, pushed, later, rfl, ?_, .entered hopens (by simp) hended (.ok ()), ?_, ?_⟩
  · refine (List.take_append_drop n (env.run p)).symm.trans ?_
    rw [h, List.append_assoc]
    rfl
  · rw [List.take_add, h]
    rfl
  · rw [List.take_add, List.take_add, h]
    rfl

/-- The healthy backend takes a second, whether the other one is tried before it or not. -/
theorem serves_slowFirst (admitted : Bool) :
    (slowFirst admitted).Serves hiCompletion 1 (if admitted then 30 else 0) 1
      (if admitted then 31000 else 1000) := by
  obtain ⟨now, sample, hrun⟩ : ∃ now sample,
      ((slowFirst admitted).run hiCompletion).drop (if admitted then 14 else 9) =
        ⟨.acquire 1, .ok ()⟩ :: ⟨.complete ⟨1⟩ hiRequest.messages "m", .ok ⟨"ok", 1, 1⟩⟩ ::
        ⟨.release 1, .ok ()⟩ :: ⟨.perfCounter, now⟩ :: ⟨.record 1 true, .ok ()⟩ ::
        ⟨.lpush 1 sample, .ok ()⟩ ::
        ((slowFirst admitted).run hiCompletion).drop (if admitted then 20 else 15) := by
    unfold Timed.run hiCompletion handleComplete
    rw [walk_evaluates]
    cases admitted <;> exact ⟨_, _, rfl⟩
  have hserves := Timed.Serves.of_drop ⟨1, "healthy", .ollama, "e", "m", 200, true, 0, 0⟩ hrun
  have htimes : (slowFirst admitted).clock (((slowFirst admitted).run hiCompletion).take
        ((if admitted then 14 else 9) + 1)) - (slowFirst admitted).clock [] =
        (if admitted then 30 else 0) ∧
      (slowFirst admitted).clock (((slowFirst admitted).run hiCompletion).take
        ((if admitted then 14 else 9) + 3)) -
        (slowFirst admitted).clock (((slowFirst admitted).run hiCompletion).take
          ((if admitted then 14 else 9) + 1)) = 1 := by
    unfold Timed.run hiCompletion handleComplete
    rw [walk_evaluates]
    cases admitted <;> decide +kernel
  rw [htimes.1, htimes.2] at hserves
  have hsample : sample = millis ((if admitted then 30 else 0) + 1) :=
    hserves.sample_eq (.complete hiRequest)
  have hmillis : millis ((if admitted then 30 else 0) + 1) = if admitted then 31000 else 1000 := by
    cases admitted <;> decide +kernel
  rwa [hsample, hmillis] at hserves

/-- Thirty seconds that another backend has wasted are in the sample. -/
theorem samples_agree_iff_slowFirst :
    (31000 : Int) = 1000 ↔ millis (30 + 1) = millis (0 + 1) :=
  samples_agree_iff zeroDigest (.complete hiRequest) (.complete hiRequest) (slowFirst true)
    (slowFirst false) (serves_slowFirst true) (serves_slowFirst false)

/-- The healthy backend answers in a second both times. The request that has tried the other
one first records half a minute for it. -/
theorem sample_of_failover : ∃ env₁ env₂ : Timed, ∃ p before₁ before₂ own sample₁ sample₂,
    Starts zeroDigest (.request "m") p ∧ env₁.Serves p 1 before₁ own sample₁ ∧
    env₂.Serves p 1 before₂ own sample₂ ∧ sample₁ ≠ sample₂ :=
  ⟨slowFirst true, slowFirst false, hiCompletion, 30, 0, 1, 31000, 1000, .complete hiRequest,
    serves_slowFirst true, serves_slowFirst false, by decide⟩

end InferenceGateway.Orchestrator
