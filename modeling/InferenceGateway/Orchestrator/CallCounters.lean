import InferenceGateway.Orchestrator.HotReload
import InferenceGateway.Orchestrator.SlowReader

/-!
# The counters of backend calls

`gateway_backend_calls_total` counts the calls of each backend by their outcome. Both
handlers count a call that has completed, and `handle_complete` counts one that has raised.
A stream that raises is recorded by the breaker, but not counted.
-/
namespace InferenceGateway.Orchestrator
open Library Library.Action Redis

variable {α β : Type}

/-! ## Calls and counters -/

/-- One call of a backend. -/
structure BackendCall where
  backend : Backend
  streamed : Bool
  completed : Bool
  deriving DecidableEq

def BackendCall.outcome (c : BackendCall) : String := if c.completed then "ok" else "error"

/-- Whether an operation opens a call, and whether that is a stream. -/
def Op.opening : Op → Option Bool
  | .complete .. => some false
  | .stream .. => some true
  | _ => none

def Op.leaves : Op → Bool
  | .release _ => true
  | _ => false

/-- The candidate in hand is the one that the policy has chosen last. -/
def inHand (current : Option Backend) : Event → Option Backend
  | ⟨.select offered _, .ok chosen⟩ => offered.find? fun b => b.id = chosen.id
  | _ => current

/-- The calls of a request, each to the candidate in hand. A call has completed if nothing
raises up to leaving the semaphore. -/
def callsFrom (current : Option Backend) : List Event → List BackendCall
  | [] => []
  | ev :: rest =>
    match current, ev.1.opening with
    | some backend, some streamed =>
      ⟨backend, streamed,
        (ev :: rest.takeWhile fun ev => !ev.1.leaves).all fun ev => ev.2.isOk⟩ ::
        callsFrom current rest
    | _, _ => callsFrom (inHand current ev) rest

/-- An event that adds one to the counter of these labels. -/
def bumps (name outcome : String) : Event → Bool
  | ⟨.incr metric labels, .ok _⟩ => metric = "gateway_backend_calls_total" ∧
      labels = [("backend", name), ("outcome", outcome)]
  | _ => false

/-- `gateway_backend_calls_total` after the events of all requests. -/
def backendCallsTotal (history : List (Nat × Event)) (name outcome : String) : Nat :=
  history.countP fun e => bumps name outcome e.2

/-- The calls of all requests. -/
def backendCalls (w : Pool Nat Running Op Reply Outcome) : List BackendCall :=
  w.tasks.flatMap fun task => callsFrom none (Pool.own task.1 w.history)

/-- The counters of every backend are the numbers of its calls that have completed and that
have raised. -/
def CountersMatch (w : Pool Nat Running Op Reply Outcome) : Prop := ∀ name,
  backendCallsTotal w.history name "ok" =
    (backendCalls w).countP (fun c => c.backend.name = name ∧ c.completed = true) ∧
  backendCallsTotal w.history name "error" =
    (backendCalls w).countP (fun c => c.backend.name = name ∧ c.completed = false)

/-- What the handlers do about calls besides making them. -/
def Op.keepsBooks : Op → Bool
  | .perfCounter | .reconcile .. | .exactPut .. | .embed _ | .insertEntry _ | .record ..
  | .acquire _ | .release _ | .lpush .. | .ltrim _ | .insertLog _ | .incr .. | .observe .. => true
  | _ => false

/-- The bookkeeping does not fail, and nothing is cancelled. -/
def Steady (op : Op) (r : Reply op) : Prop :=
  (op.keepsBooks = true → ∃ a, r = .ok a) ∧ ∀ e, r = .error e → e.isException = true

abbrev steady : Contract := .expecting Steady

/-- A call of these labels that the handlers count. -/
def BackendCall.counted (name outcome : String) (c : BackendCall) : Bool :=
  c.backend.name = name ∧ c.outcome = outcome ∧ (c.completed = true ∨ c.streamed = false)

/-! ## Counting along a trace -/

/-- Neither chooses a candidate, nor opens a call, nor counts one. -/
def Op.aside : Op → Bool
  | .select .. | .complete .. | .stream .. => false
  | .incr metric _ => metric ≠ "gateway_backend_calls_total"
  | _ => true

/-- Every event is aside. -/
def Aside (trace : List Event) : Prop := ∀ ev ∈ trace, ev.1.aside = true

/-- Besides events that are aside, one call of the backend is counted. -/
def BumpsOnce (backend : Backend) (outcome : String) (trace : List Event) : Prop :=
  ∃ before after, trace = before ++ ⟨.incr "gateway_backend_calls_total"
    [("backend", backend.name), ("outcome", outcome)], .ok ()⟩ :: after ∧
    Aside before ∧ Aside after

/-- What a part of a pass does with the candidate in hand: it makes these calls, and counts
those that are counted. -/
structure Tallies (backend : Backend) (trace : List Event) (calls : List BackendCall) : Prop where
  made : ∀ rest, callsFrom (some backend) (trace ++ rest) = calls ++ callsFrom (some backend) rest
  counted : ∀ name outcome,
    trace.countP (bumps name outcome) = calls.countP (·.counted name outcome)

/-- Of the calls of the trace, the counted ones are counted once. -/
def Tallied (trace : List Event) : Prop := ∀ current name outcome,
  trace.countP (bumps name outcome) =
    (callsFrom current trace).countP (·.counted name outcome)

section Counting
variable {current : Option Backend} {backend : Backend} {trace trace' rest : List Event}
  {ev : Event} {outcome : String}

theorem callsFrom_cons (hopening : ev.1.opening = none) :
    callsFrom current (ev :: rest) = callsFrom (inHand current ev) rest := by
  simp [callsFrom, hopening]

theorem callsFrom_opening {streamed : Bool} (hopening : ev.1.opening = some streamed) :
    callsFrom (some backend) (ev :: rest) =
      ⟨backend, streamed,
        (ev :: rest.takeWhile fun ev => !ev.1.leaves).all fun ev => ev.2.isOk⟩ ::
        callsFrom (some backend) rest := by
  simp [callsFrom, hopening]

theorem callsFrom_cons_of_aside (h : ev.1.aside = true) :
    callsFrom current (ev :: rest) = callsFrom current rest := by
  obtain ⟨op, r⟩ := ev
  cases op <;> first | exact callsFrom_cons rfl | simp [Op.aside] at h

theorem bumps_of_aside (h : ev.1.aside = true) (name : String) : bumps name outcome ev = false := by
  unfold bumps
  split
  · simp [Op.aside] at h
    simp [h]
  · rfl

theorem Aside.append (h : Aside trace) (h' : Aside trace') : Aside (trace ++ trace') :=
  List.forall_mem_append.mpr ⟨h, h'⟩

theorem Aside.callsFrom (h : Aside trace) :
    callsFrom current (trace ++ rest) = callsFrom current rest := by
  induction trace with
  | nil => rfl
  | cons ev trace ih =>
    obtain ⟨hev, htrace⟩ := List.forall_mem_cons.mp h
    rw [List.cons_append, callsFrom_cons_of_aside hev, ih htrace]

theorem Aside.countP (h : Aside trace) (name : String) :
    trace.countP (bumps name outcome) = 0 :=
  List.countP_eq_zero.mpr fun ev hev => by simp [bumps_of_aside (h ev hev)]

theorem BumpsOnce.callsFrom (h : BumpsOnce backend outcome trace) :
    callsFrom current (trace ++ rest) = callsFrom current rest := by
  obtain ⟨before, after, rfl, hbefore, hafter⟩ := h
  rw [List.append_assoc, hbefore.callsFrom, List.cons_append, callsFrom_cons rfl]
  exact hafter.callsFrom

theorem BumpsOnce.countP (h : BumpsOnce backend outcome trace) (name outcome' : String) :
    trace.countP (bumps name outcome') =
      if backend.name = name ∧ outcome = outcome' then 1 else 0 := by
  obtain ⟨before, after, rfl, hbefore, hafter⟩ := h
  rw [List.countP_append, List.countP_cons, hbefore.countP, hafter.countP]
  simp [bumps]

theorem Tallied.of_aside (h : Aside trace) : Tallied trace := by
  intro current name outcome
  have hcalls : callsFrom current (trace ++ []) = callsFrom current [] := h.callsFrom
  rw [List.append_nil] at hcalls
  rw [hcalls, h.countP, callsFrom, List.countP_nil]

theorem Tallied.nil : Tallied [] := fun _ _ _ => rfl

/-- An event that neither opens a call nor counts one. -/
theorem Tallied.cons (hopening : ev.1.opening = none)
    (hbumps : ∀ name outcome, bumps name outcome ev = false) (h : Tallied rest) :
    Tallied (ev :: rest) := by
  intro current name outcome
  rw [callsFrom_cons hopening, List.countP_cons, hbumps, h (inHand current ev) name outcome]
  simp

theorem Tallied.after (h : Aside trace) (h' : Tallied trace') : Tallied (trace ++ trace') := by
  intro current name outcome
  rw [h.callsFrom, List.countP_append, h.countP, Nat.zero_add]
  exact h' current name outcome

/-- A call, from opening it to what is done about it after leaving the semaphore. -/
theorem Tallies.of_call {streamed : Bool} {opening : Event} {within after : List Event} {id : Uuid}
    (hopening : opening.1.opening = some streamed)
    (hwithin : ∀ ev ∈ within, ev.1.aside = true ∧ ev.1.leaves = false)
    (hcalls : ∀ rest, callsFrom (some backend) (after ++ rest) = callsFrom (some backend) rest)
    (hcounted : ∀ name outcome, after.countP (bumps name outcome) =
      [(⟨backend, streamed, (opening :: within).all fun ev => ev.2.isOk⟩ : BackendCall)].countP
        (·.counted name outcome)) :
    Tallies backend (⟨.acquire id, .ok ()⟩ :: opening :: (within ++ ⟨.release id, .ok ()⟩ :: after))
      [⟨backend, streamed, (opening :: within).all fun ev => ev.2.isOk⟩] := by
  have haside : Aside within := fun ev hev => (hwithin ev hev).1
  have hopens : ∀ name outcome, bumps name outcome opening = false := fun name outcome => by
    obtain ⟨op, r⟩ := opening
    cases op <;> first | rfl | exact nomatch hopening
  refine ⟨fun rest => ?_, fun name outcome => ?_⟩
  · have hsection : ((within ++ ⟨.release id, .ok ()⟩ :: after) ++ rest).takeWhile
        (fun ev => !ev.1.leaves) = within := by
      rw [List.append_assoc, List.takeWhile_append_of_pos fun ev hev => by simp [hwithin ev hev]]
      simp [Op.leaves]
    rw [List.cons_append, callsFrom_cons_of_aside rfl, List.cons_append,
      callsFrom_opening hopening, hsection, List.append_assoc, haside.callsFrom,
      List.cons_append, callsFrom_cons_of_aside rfl, hcalls]
    rfl
  · rw [← hcounted, List.countP_cons, List.countP_cons, List.countP_append, haside.countP,
      List.countP_cons, hopens]
    simp [bumps]

/-- A pass through the loop with the chosen candidate. -/
theorem Tallied.pass {rem : List (Backend × Client)} {chosen : Backend} {client : Client}
    {calls : List BackendCall} {f : RequestFeatures}
    (hpair : pairOf chosen.id rem = some (backend, client)) {allowed : Bool}
    (h : Tallies backend trace calls) (h' : Tallied trace') :
    Tallied (⟨.select (rem.map Prod.fst) f, .ok chosen⟩ :: ⟨.allow backend.id, .ok allowed⟩ ::
      (trace ++ trace')) := by
  have hfind : (rem.map Prod.fst).find? (fun b => b.id = chosen.id) = some backend := by
    rw [List.find?_map]
    simpa [pairOf, Function.comp_def] using ⟨client, hpair⟩
  intro current name outcome
  have hcalls : callsFrom current (⟨.select (rem.map Prod.fst) f, .ok chosen⟩ ::
      ⟨.allow backend.id, .ok allowed⟩ :: (trace ++ trace')) =
      calls ++ callsFrom (some backend) trace' := by
    rw [callsFrom_cons rfl, inHand, hfind, callsFrom_cons_of_aside rfl, h.made]
  rw [hcalls, List.countP_append, ← h.counted, ← h' (some backend) name outcome]
  simp [bumps]

end Counting

/-! ## The parts of the handlers -/

section Parts
variable {gw : RequestOrchestrator} {req : ChatRequest}

theorem admits_steady (gw : RequestOrchestrator) (req : ChatRequest) : Admits steady gw req :=
  .of_allowed fun _ => trivial

/-- A part that is aside. -/
abbrev StaysAside (x : Action α) : Prop := wp steady x fun trace _ => Aside trace

theorem StaysAside.of_straight {S : Op → Prop} {x : Action α} (h : Straight steady S x)
    (hS : ∀ op, S op → op.aside = true) : StaysAside x := h.confined hS

theorem StaysAside.bind {x : Action α} {f : α → Action β} (hx : StaysAside x)
    (hf : ∀ a, StaysAside (f a)) : StaysAside (x >>= f) :=
  Confined.bind (S := fun op : Op => op.aside = true) hx hf

theorem StaysAside.pure (a : α) : StaysAside (pure a : Action α) :=
  Confined.pure (S := fun op : Op => op.aside = true) a

theorem StaysAside.throw (e : Raised) : StaysAside (throw e : Action α) :=
  Confined.throw (S := fun op : Op => op.aside = true) e

theorem StaysAside.call {op : Op} (h : op.aside = true) :
    StaysAside (Library.Action.call op : Action (Ret op)) :=
  .of_straight (.call trivial rfl) fun _ heq => heq ▸ h

theorem aside_incr {metric : String} (h : metric ≠ "gateway_backend_calls_total")
    (labels : List (String × String)) : StaysAside (incr gw metric labels) := by
  unfold incr
  split
  · exact .call (decide_eq_true h)
  · exact .pure ()

/-- The bookkeeping of an answer, which is assumed to return. -/
theorem keeps_settle (start : Time) (reservation : Resilience.RateLimit.ReservationId)
    (backend : Backend) (content : String) (tokensIn tokensOut : Int)
    (finishReason : Option String) :
    Straight steady (fun op => op.aside = true ∧ op.keepsBooks = true)
      (settle gw req start reservation backend content tokensIn tokensOut finishReason) := by
  refine straight_settle (admits_steady gw req) (fun op hop => ?_) (fun _ => ⟨rfl, rfl⟩) _ _ _ _ _ _
  cases op <;> first | exact ⟨rfl, rfl⟩ | exact hop.elim

/-- The books of a call that is counted, around counting it. -/
theorem bumps_once (hmetrics : gw.metrics = true) {backend : Backend} {outcome : String}
    {x : Action α} (hx : Straight steady (fun op => op.aside = true ∧ op.keepsBooks = true) x)
    {f : α → Action β} (hf : ∀ a, StaysAside (f a)) :
    wp steady (x >>= fun a => incr gw "gateway_backend_calls_total"
      [("backend", backend.name), ("outcome", outcome)] >>= fun _ => f a)
      fun trace _ => BumpsOnce backend outcome trace := by
  refine (wp_bind _).mpr (wp_mono (hx.returns fun op r hop hr => hr.1 hop.2) ?_)
  rintro before _ ⟨hbefore, a, rfl⟩
  unfold incr
  rw [if_pos hmetrics]
  refine wp_call_bind trivial (fun e he => ?_) fun u _ => wp_mono (hf a) fun after r hafter => ?_
  · obtain ⟨u, hu⟩ := he.1 rfl
    exact nomatch hu
  · exact ⟨before, after, rfl, fun ev hev => (hbefore ev hev).1, hafter⟩

/-- A call of `handle_complete` is counted however it ends. -/
theorem tallies_complete (hmetrics : gw.metrics = true) (start : Time)
    (reservation : Resilience.RateLimit.ReservationId) (backend : Backend) (client : Client) :
    wp steady (completeWith gw req start reservation backend client)
      fun trace _ => ∃ calls, Tallies backend trace calls := by
  unfold completeWith
  refine (wp_bind _).mpr ((wp_attempt _).mpr (wp_withSemaphore trivial trivial ?_ ?_))
  · intro e he
    obtain ⟨u, hu⟩ := he.1 rfl
    exact nomatch hu
  intro u _
  refine (wp_call _ _).mpr ⟨trivial, fun r hr left hleft => ?_⟩
  obtain ⟨v, rfl⟩ := hleft.1 rfl
  have hcall : ∀ {after : List Event}, BumpsOnce backend (if r.isOk then "ok" else "error") after →
      ∃ calls, Tallies backend (⟨.acquire backend.id, .ok ()⟩ ::
        ⟨.complete client req.messages backend.model, r⟩ ::
        ([] ++ ⟨.release backend.id, .ok ()⟩ :: after)) calls := by
    intro after hafter
    refine ⟨_, .of_call rfl (by simp) (fun rest => hafter.callsFrom) fun name outcome => ?_⟩
    rw [hafter.countP]
    simp [BackendCall.counted, BackendCall.outcome]
  cases r with
  | error e =>
    dsimp only [Except.bind]
    rw [if_pos (hr.2 e rfl)]
    have hrecord : Straight steady (fun op => op.aside = true ∧ op.keepsBooks = true)
        (Orchestrator.call (.record backend.id false)) :=
      .call trivial ⟨rfl, rfl⟩
    exact wp_mono (bumps_once hmetrics hrecord fun _ => .pure _) fun _ _ hafter => hcall hafter
  | ok completion =>
    have hobserve : ∀ latency : Int, StaysAside (observe gw "gateway_request_latency_seconds"
        (latency / 1000) [("cache", "miss")] >>= fun _ => return (.done ⟨completion.content,
          backend.model, completion.tokensIn, completion.tokensOut, some "stop", none,
          some backend.name⟩ : Pass CompletionResult)) := fun latency =>
      .bind (.of_straight (straight_observe (admits_steady gw req) rfl) fun _ heq => heq ▸ rfl)
        fun _ => .pure _
    exact wp_mono (bumps_once hmetrics (keeps_settle start reservation backend _ _ _ _)
      hobserve) fun _ _ hafter => hcall hafter

/-- A reading raises nothing exactly if it ends without an exception. -/
theorem Reads.all_isOk {client : Client} {events : List StreamEvent} {trace : List Event}
    {r : Except Raised Unit} (h : Reads client events trace r) :
    (trace.all fun ev => ev.2.isOk) = r.isOk := by
  induction h with
  | ended r => simp
  | broken e | left e => rfl
  | usage _ ih | text _ ih => exact ih

theorem Reads.raised {client : Client} {events : List StreamEvent} {trace : List Event}
    {r : Except Raised Unit} (h : Reads client events trace r) {e : Raised} (he : r = .error e) :
    ∃ op, ⟨op, .error e⟩ ∈ trace := by
  induction h with
  | ended r =>
    subst he
    exact ⟨_, List.mem_singleton_self _⟩
  | broken e' =>
    obtain rfl := Except.error.inj he
    exact ⟨_, List.mem_singleton_self _⟩
  | left e' =>
    obtain rfl := Except.error.inj he
    exact ⟨_, List.mem_cons_of_mem _ (List.mem_singleton_self _)⟩
  | usage _ ih =>
    obtain ⟨op, hop⟩ := ih he
    exact ⟨op, List.mem_cons_of_mem _ hop⟩
  | text _ ih =>
    obtain ⟨op, hop⟩ := ih he
    exact ⟨op, List.mem_cons_of_mem _ (List.mem_cons_of_mem _ hop)⟩

/-- A stream that is read is one call, and whatever it has raised is an exception. -/
theorem call_streamFrom (backend : Backend) (client : Client) :
    wp steady (streamFrom req backend client) fun trace r => ∃ s ended opening within,
      r = .ok (s, ended) ∧ opening.1.opening = some true ∧
      (∀ ev ∈ within, ev.1.aside = true ∧ ev.1.leaves = false) ∧
      ((opening :: within).all fun ev => ev.2.isOk) = ended.isOk ∧
      (∀ e, ended = .error e → e.isException = true) ∧
      trace = ⟨.acquire backend.id, .ok ()⟩ :: opening ::
        (within ++ [⟨.release backend.id, .ok ()⟩]) := by
  refine wp_mono (Program.wp_kept (readTrace_streamFrom (admits_steady ⟨true, fun _ => ""⟩ req)
    backend client)) ?_
  rintro trace _ ⟨hkept, s, ended, rfl, ⟨e, rfl, -⟩ | ⟨call, rfl, hread⟩⟩
  · obtain ⟨u, hu⟩ := (hkept _ (List.mem_singleton_self _)).2.1 rfl
    exact nomatch hu
  have hleft : ∀ left : Reply (.release backend.id),
      ⟨.release backend.id, left⟩ ∈ call → left = .ok () := fun left hmem => by
    obtain ⟨u, hu⟩ := (hkept _ (List.mem_cons_of_mem _ hmem)).2.1 rfl
    exact hu
  have hexception : ∀ e, (∃ op, ⟨op, .error e⟩ ∈ call) → e.isException = true := by
    rintro e ⟨op, hmem⟩
    exact (hkept _ (List.mem_cons_of_mem _ hmem)).2.2 e rfl
  cases hread with
  | unopened e left =>
    obtain rfl := hleft left (by simp)
    refine ⟨s, _, _, [], rfl, rfl, by simp, rfl, fun e' he => ?_, rfl⟩
    obtain rfl := Except.error.inj he
    exact hexception e ⟨_, List.mem_cons_self⟩
  | @read events within ended hreads left =>
    obtain rfl := hleft left (by simp)
    refine ⟨s, ended, _, within, rfl, rfl, fun ev hev => ?_, ?_, fun e he => ?_, rfl⟩
    · have hop := hreads.ops ev hev
      obtain ⟨op, r⟩ := ev
      cases op <;> first | exact ⟨rfl, rfl⟩ | exact hop.elim
    · exact hreads.all_isOk
    · obtain ⟨op, hop⟩ := hreads.raised he
      exact hexception e ⟨op, by simp [hop]⟩

/-- A stream is counted if it completes. -/
theorem tallies_stream (hmetrics : gw.metrics = true) (start : Time)
    (reservation : Resilience.RateLimit.ReservationId) (backend : Backend) (client : Client) :
    wp steady (streamWith gw req start reservation backend client)
      fun trace _ => ∃ calls, Tallies backend trace calls := by
  unfold streamWith
  refine (wp_bind _).mpr (wp_mono (call_streamFrom backend client) ?_)
  rintro _ _ ⟨s, ended, opening, within, rfl, hopening, hwithin, hall, hexception, rfl⟩
  cases ended with
  | error e =>
    have hraised : ((opening :: within).all fun ev => ev.2.isOk) = false := hall
    dsimp only
    rw [if_pos (hexception e rfl)]
    have hafter : StaysAside (Orchestrator.call (.record backend.id false) >>= fun _ =>
        if s.anyYielded then throw (.allBackendsUnavailable (some e))
        else return (.next (some e) : Pass Unit)) := by
      refine .bind (.call rfl) fun _ => ?_
      split
      · exact .throw _
      · exact .pure _
    refine wp_mono hafter fun after r hafter => ?_
    have hcall : Tallies backend (⟨.acquire backend.id, .ok ()⟩ :: opening ::
        (within ++ ⟨.release backend.id, .ok ()⟩ :: after)) _ :=
      .of_call hopening hwithin (fun rest => hafter.callsFrom) fun name outcome => by
        rw [hafter.countP, hraised]
        simp [BackendCall.counted]
    exact ⟨_, by simpa using hcall⟩
  | ok u =>
    have hcompleted : ((opening :: within).all fun ev => ev.2.isOk) = true := hall
    have hyield : ∀ (result : CompletionResult), StaysAside (Orchestrator.call
        (.emit (.result result)) >>= fun _ => return (.done () : Pass Unit)) := fun result =>
      .bind (.call rfl) fun _ => .pure _
    refine wp_mono (bumps_once hmetrics (keeps_settle start reservation backend _ _ _ _)
      fun _ => hyield _) fun after r hafter => ?_
    have hcall : Tallies backend (⟨.acquire backend.id, .ok ()⟩ :: opening ::
        (within ++ ⟨.release backend.id, .ok ()⟩ :: after)) _ :=
      .of_call hopening hwithin (fun rest => hafter.callsFrom) fun name outcome => by
        rw [hafter.countP, hcompleted]
        simp [BackendCall.counted, BackendCall.outcome]
    exact ⟨_, by simpa using hcall⟩

/-- The failover loop. -/
theorem tallied_walk {stopped : Raised} {body : Backend → Client → Action (Pass α)}
    {exhausted : Option Raised → Action α}
    (hbody : ∀ backend client,
      wp steady (body backend client) fun trace _ => ∃ calls, Tallies backend trace calls)
    (hexhausted : ∀ err, StaysAside (exhausted err)) (remaining : List (Backend × Client))
    (err : Option Raised) :
    wp steady (walk req stopped body exhausted remaining err) fun trace _ => Tallied trace := by
  suffices h : WalkRule steady req stopped body exhausted (fun _ _ => True)
      (fun _ _ trace _ => Tallied trace) from h.wp_walk trivial
  have hnone : ∀ {backend : Backend}, Tallies backend [] [] := ⟨fun _ => rfl, fun _ _ => rfl⟩
  refine ⟨fun _ _ => trivial, fun _ _ _ => ?_, fun _ _ _ _ => ?_, fun _ _ => trivial,
    fun _ _ _ => ?_, fun _ _ hpair _ => ⟨trivial, fun _ _ hrest => ?_⟩, ?_,
    fun _ => wp_mono (hexhausted _) fun _ _ hr => .of_aside hr⟩
  · exact .cons rfl (fun _ _ => rfl) .nil
  · exact .cons rfl (fun _ _ => rfl) .nil
  · exact .cons rfl (fun _ _ => rfl) (.cons rfl (fun _ _ => rfl) .nil)
  · exact .pass hpair hnone hrest
  · intro rem err chosen backend client _ _ hpair _
    refine wp_mono (hbody backend client) fun trace r hr => ?_
    obtain ⟨calls, hcalls⟩ := hr
    have hlast : Tallied (⟨.select (rem.map Prod.fst) (features req), .ok chosen⟩ ::
        ⟨.allow backend.id, .ok true⟩ :: (trace ++ [])) := .pass hpair hcalls .nil
    rw [List.append_nil] at hlast
    cases r with
    | error e => exact hlast
    | ok pass =>
      cases pass with
      | done a => exact hlast
      | next err' => exact ⟨trivial, fun _ _ hrest => .pass hpair hcalls hrest⟩

/-- Both handlers. -/
theorem tallied_pipeline (gw : RequestOrchestrator) (req : ChatRequest)
    {charged : Time → Resilience.RateLimit.ReservationId → CacheHit → Action α}
    {loop : Time → Resilience.RateLimit.ReservationId → List (Backend × Client) → Action α}
    (hcharged : ∀ start reservation hit, StaysAside (charged start reservation hit))
    (hloop : ∀ start reservation remaining,
      wp steady (loop start reservation remaining) fun trace _ => Tallied trace) :
    wp steady (pipeline gw req charged loop) fun trace _ => Tallied trace := by
  have hlead : ∀ {start : Reply .perfCounter} {lead : List Event},
      (∀ ev ∈ lead, LeadOp req ev.1) → Aside (⟨.perfCounter, start⟩ :: lead) := by
    intro start lead h
    refine List.forall_mem_cons.mpr ⟨rfl, fun ev hev => ?_⟩
    have hop := h ev hev
    obtain ⟨op, r⟩ := ev
    cases op <;> first | rfl | exact hop.elim
  refine wp_pipeline (admits_steady gw req) (fun start lead r h => .of_aside (hlead h))
    (fun start reservation hit lead h => ?_) fun start reservation remaining lead h => ?_
  · exact wp_mono (hcharged start reservation hit) fun _ _ hr =>
      .of_aside ((hlead h).append hr)
  · exact wp_mono (hloop start reservation remaining) fun _ _ hr => .after (hlead h) hr

theorem aside_chargeHit (start : Time) (reservation : Resilience.RateLimit.ReservationId)
    (hit : CacheHit) : StaysAside (chargeHit gw req start reservation hit) := by
  refine .of_straight (straight_chargeHit (S := fun op => op.aside = true) (admits_steady gw req)
    (fun op hop => ?_) (fun _ => rfl) (fun _ => rfl) start reservation hit) fun _ => id
  cases op <;> first | rfl | exact hop.elim

theorem aside_logUnavailable (start : Time) : StaysAside (logUnavailable req start) := by
  refine .of_straight (straight_logUnavailable (S := fun op : Op => op.aside = true)
    (admits_steady ⟨true, fun _ => ""⟩ req) (fun op hop => ?_) (fun _ => rfl) start) fun _ => id
  cases op <;> first | rfl | exact hop.elim

theorem AdminOp.aside {op : Op} (h : AdminOp op) : op.aside = true := by
  cases op <;> first | rfl | exact h.elim

/-- Whatever runs in the process counts its own calls. -/
theorem Starts.tallied (hmetrics : gw.metrics = true) {purpose : Purpose}
    {p : Program Op Reply Outcome} (hstart : Starts gw purpose p) :
    Program.wp steady p fun trace _ => Tallied trace := by
  cases purpose with
  | admin =>
    have hadmin : Program.wp ⟨AdminOp, fun _ _ => True⟩ p fun _ _ => True :=
      ClosesOld.wp_starts ⟨fun op hop _ => hop, fun _ _ _ _ _ => trivial⟩ hstart
    refine Program.wp_weaken (Program.wp_mono (Program.wp_kept hadmin) fun trace _ hr => ?_)
      (fun _ _ => trivial) fun _ _ _ => trivial
    exact .of_aside fun ev hev => (hr.1 ev hev).1.aside
  | request model =>
    cases hstart with
    | complete req =>
      refine (Program.wp_map _ _).mpr (tallied_pipeline gw req
        (fun start reservation hit => ?_) fun start reservation remaining => ?_)
      · exact (aside_chargeHit start reservation hit).bind fun _ => .pure _
      · refine tallied_walk (tallies_complete hmetrics start reservation) (fun err => ?_)
          remaining none
        refine (aside_logUnavailable start).bind fun _ => ?_
        exact (aside_incr (by decide) _).bind fun _ => .throw _
    | stream req =>
      refine (Program.wp_map _ _).mpr (tallied_pipeline gw req
        (fun start reservation hit => ?_) fun start reservation remaining => ?_)
      · refine (aside_chargeHit start reservation hit).bind fun _ => ?_
        exact StaysAside.bind (.call rfl) fun _ => .call rfl
      · refine tallied_walk (tallies_stream hmetrics start reservation) (fun err => ?_)
          remaining none
        exact (aside_logUnavailable start).bind fun _ => .throw _

end Parts

/-! ## Runs -/

section Runs
variable {cache : TwoTierCache} {gw : RequestOrchestrator} {table : List Backend}
  {w : Pool Nat Running Op Reply Outcome}

/-- Once every request has ended, the counters are the numbers of calls that are counted. -/
theorem backendCallsTotal_eq (hmetrics : gw.metrics = true)
    (h : Pool.Reachable (hotReload cache gw table) w) (hnodup : (w.tasks.map Prod.fst).Nodup)
    (hended : ∀ task ∈ w.tasks, ∃ outcome, task.2 = .pure outcome)
    (hsteady : ∀ e ∈ w.history, Steady e.2.1 e.2.2) (name outcome : String) :
    backendCallsTotal w.history name outcome =
      (backendCalls w).countP (·.counted name outcome) := by
  have htallied : ∀ task ∈ w.tasks, Tallied (Pool.own task.1 w.history) := by
    intro task htask
    obtain ⟨p, ⟨purpose, hstart⟩, hfollows⟩ := h.follows hnodup task htask
    obtain ⟨outcome, heq⟩ := hended task htask
    rw [heq] at hfollows
    exact hfollows.ended (hstart.tallied hmetrics) fun ev hev =>
      hsteady (task.1, ev) (Pool.mem_own.mp hev)
  have hevents := (Pool.perm_own hnodup h.mem_tags).countP_eq (bumps name outcome)
  rw [List.countP_map] at hevents
  unfold backendCallsTotal backendCalls
  rw [show (fun e : Nat × Event => bumps name outcome e.2) = bumps name outcome ∘ Prod.snd from rfl,
    ← hevents, List.flatMap_map, List.countP_flatMap, List.countP_flatMap]
  refine congrArg _ (List.map_congr_left fun task htask => ?_)
  exact htallied task htask none name outcome

theorem countP_and_eq_iff {γ : Type} {p q : γ → Bool} {l : List γ} :
    (l.countP fun a => q a && p a) = l.countP p ↔ ∀ a ∈ l, p a = true → q a = true := by
  rw [← List.countP_filter, List.countP_eq_length_filter (p := p), List.countP_eq_length]
  simp

theorem BackendCall.counted_ok (name : String) (c : BackendCall) :
    c.counted name "ok" = decide (c.backend.name = name ∧ c.completed = true) := by
  cases hcompleted : c.completed <;> simp [counted, outcome, hcompleted]

theorem BackendCall.counted_error (name : String) (c : BackendCall) :
    c.counted name "error" =
      (!c.streamed && decide (c.backend.name = name ∧ c.completed = false)) := by
  cases hcompleted : c.completed <;> simp [counted, outcome, hcompleted, and_comm]

end Runs

/-- In every run of requests with metrics enabled that have all ended, if the bookkeeping does
not fail and nothing is cancelled: the counters match the calls exactly if no stream has
raised. -/
theorem counters_match_iff (cache : TwoTierCache) (gw : RequestOrchestrator)
    (table : List Backend) (hmetrics : gw.metrics = true)
    {w : Pool Nat Running Op Reply Outcome} (h : Pool.Reachable (hotReload cache gw table) w)
    (hnodup : (w.tasks.map Prod.fst).Nodup)
    (hended : ∀ task ∈ w.tasks, ∃ outcome, task.2 = .pure outcome)
    (hsteady : ∀ e ∈ w.history, Steady e.2.1 e.2.2) :
    CountersMatch w ↔ ∀ c ∈ backendCalls w, c.streamed = true → c.completed = true := by
  have htotal := backendCallsTotal_eq hmetrics h hnodup hended hsteady
  simp only [CountersMatch, htotal, BackendCall.counted_ok, BackendCall.counted_error, true_and]
  constructor
  · intro hmatch c hc hstreamed
    by_contra hraised
    have hunstreamed := countP_and_eq_iff.mp (hmatch c.backend.name) c hc (by simpa using hraised)
    simp [hstreamed] at hunstreamed
  · intro hstreams name
    refine countP_and_eq_iff.mpr fun c hc hraised => ?_
    cases hstreamed : c.streamed with
    | false => rfl
    | true => simp [hstreams c hc hstreamed] at hraised

/-! ## A stream that raises -/

/-- A request that leaves the cache alone. -/
def uncachedRequest : ChatRequest := { hiRequest with bypassCache := true }

/-- Reloads one after the other, then a call and a stream of the same backend. The client that the
first reload makes raises at once, and later ones answer. -/
def callAndStream (reloads : Nat) : Pool Nat Running Op Reply Outcome :=
  Pool.schedule answerOnce
    { state := ⟨⟨Strings.empty, [], flaky, {}⟩, 0⟩
      history := []
      tasks := (1, Outcome.completed <$> (handleComplete zeroDigest uncachedRequest).run) ::
        (2, Outcome.streamed <$> (handleStream zeroDigest uncachedRequest).run) ::
        (List.range reloads).map fun i => (i + 3, (fun _ => .administered) <$> reload.run) }
    ((List.range reloads).flatMap (fun i => List.replicate 4 (i + 2)) ++
      List.replicate 25 0 ++ List.replicate 25 1)

theorem callAndStream_reachable (reloads : Nat) :
    Pool.Reachable (hotReload sampleCache zeroDigest flaky) (callAndStream reloads) := by
  refine .schedule (answerOnce_handle _ _ _) (.starts .initial ?_) _
  simp only [List.forall_mem_cons, List.forall_mem_map]
  exact ⟨⟨_, .complete uncachedRequest⟩, ⟨_, .stream uncachedRequest⟩, fun _ _ => ⟨_, .reload⟩⟩

def hasEnded (task : Nat × Program Op Reply Outcome) : Bool :=
  match task.2 with
  | .pure _ => true
  | .perform .. => false

/-- Whether an event is steady: what raises is an exception, and no bookkeeping. -/
def isSteady : Event → Bool
  | ⟨_, .ok _⟩ => true
  | ⟨op, .error e⟩ => !op.keepsBooks && e.isException

theorem Steady.of_isSteady {ev : Event} (h : isSteady ev = true) : Steady ev.1 ev.2 := by
  obtain ⟨op, _ | a⟩ := ev
  · obtain ⟨hop, he⟩ := Bool.and_eq_true_iff.mp h
    refine ⟨fun hkeeps => absurd hop (by simp [hkeeps]), fun e' he' => ?_⟩
    obtain rfl := Except.error.inj he'
    exact he
  · exact ⟨fun _ => ⟨a, rfl⟩, nofun⟩

/-- The tasks have ended, and nothing was unsteady. -/
structure Concluded (w : Pool Nat Running Op Reply Outcome) : Prop where
  nodup : (w.tasks.map Prod.fst).Nodup
  ended : ∀ task ∈ w.tasks, ∃ outcome, task.2 = .pure outcome
  steady : ∀ e ∈ w.history, Steady e.2.1 e.2.2

theorem Concluded.of_checked {w : Pool Nat Running Op Reply Outcome}
    (hnodup : (w.tasks.map Prod.fst).Nodup) (hended : w.tasks.all hasEnded = true)
    (hsteady : (w.history.all fun e => isSteady e.2) = true) : Concluded w := by
  refine ⟨hnodup, fun task htask => ?_, fun e he => .of_isSteady (List.all_eq_true.mp hsteady e he)⟩
  have htask := List.all_eq_true.mp hended task htask
  unfold hasEnded at htask
  split at htask
  · rename_i outcome heq
    exact ⟨outcome, heq⟩
  · exact nomatch htask

theorem callAndStream_concluded : Concluded (callAndStream 1) ∧ Concluded (callAndStream 2) := by
  constructor <;> apply Concluded.of_checked <;>
  · unfold callAndStream handleComplete handleStream
    rw [walk_evaluates]
    decide +kernel

/-- The counters match if the call and the stream are answered, and miss the stream otherwise. -/
theorem counters_match_iff_raised :
    (CountersMatch (callAndStream 1) ↔
      ∀ c ∈ backendCalls (callAndStream 1), c.streamed = true → c.completed = true) ∧
    (backendCalls (callAndStream 2)).length = 2 ∧ CountersMatch (callAndStream 2) := by
  obtain ⟨hone, htwo⟩ := callAndStream_concluded
  have hcalls : (backendCalls (callAndStream 2)).length = 2 ∧
      ∀ c ∈ backendCalls (callAndStream 2), c.streamed = true → c.completed = true := by
    unfold callAndStream handleComplete handleStream
    rw [walk_evaluates]
    decide +kernel
  exact ⟨counters_match_iff sampleCache zeroDigest flaky rfl (callAndStream_reachable 1) hone.nodup
      hone.ended hone.steady, hcalls.1,
    (counters_match_iff sampleCache zeroDigest flaky rfl (callAndStream_reachable 2) htwo.nodup
      htwo.ended htwo.steady).mpr hcalls.2⟩

/-- Both calls have raised, and only that of `handle_complete` is counted. -/
theorem stream_error_uncounted : ∃ w, Pool.Reachable (hotReload sampleCache zeroDigest flaky) w ∧
    zeroDigest.metrics = true ∧ (w.tasks.map Prod.fst).Nodup ∧
    (∀ task ∈ w.tasks, ∃ outcome, task.2 = .pure outcome) ∧
    (∀ e ∈ w.history, Steady e.2.1 e.2.2) ∧ ¬ CountersMatch w := by
  obtain ⟨⟨hnodup, hended, hsteady⟩, -⟩ := callAndStream_concluded
  refine ⟨callAndStream 1, callAndStream_reachable 1, rfl, hnodup, hended, hsteady,
    fun hmatch => ?_⟩
  have hcounted : backendCallsTotal (callAndStream 1).history "b" "error" = 1 ∧
      (backendCalls (callAndStream 1)).countP
        (fun c => c.backend.name = "b" ∧ c.completed = false) = 2 := by
    unfold callAndStream handleComplete handleStream
    rw [walk_evaluates]
    decide +kernel
  have herror := (hmatch "b").2
  rw [hcounted.1, hcounted.2] at herror
  exact nomatch herror

end InferenceGateway.Orchestrator
