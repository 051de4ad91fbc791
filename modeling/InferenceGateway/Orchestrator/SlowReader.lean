import InferenceGateway.Library.Deadline
import InferenceGateway.Orchestrator.Samples

/-!
# A stream under its time limit

The time limit of a stream runs from entering the semaphore to the end of the stream, so it
also runs while the consumer keeps a chunk. A limit that passes then can end the next wait,
or cancel the consumer. The stream is completed exactly if the limit ends neither a wait for
the backend nor a hold; a failure of the backend is recorded in the first case.
-/
namespace InferenceGateway.Orchestrator
open Library Library.Action

variable {α : Type}

/-! ## How a stream is read -/

/-- Reading a stream with these events. -/
inductive Reads (client : Client) : List StreamEvent → List Event → Except Raised Unit → Prop
  | ended (r : Except Raised Unit) : Reads client [] [⟨.anext client, r⟩] r
  | broken {event : StreamEvent} {events : List StreamEvent} (e : Raised) :
      Reads client (event :: events) [⟨.anext client, .error e⟩] (.error e)
  | usage {u : Usage} {events : List StreamEvent} {trace : List Event} {r : Except Raised Unit}
      (h : Reads client events trace r) :
      Reads client (.usage u :: events) (⟨.anext client, .ok ()⟩ :: trace) r
  | left {chunk : String} {events : List StreamEvent} (e : Raised) :
      Reads client (.text chunk :: events)
        [⟨.anext client, .ok ()⟩, ⟨.emit (.text chunk), .error e⟩] (.error e)
  | text {chunk : String} {events : List StreamEvent} {trace : List Event} {r : Except Raised Unit}
      (h : Reads client events trace r) :
      Reads client (.text chunk :: events)
        (⟨.anext client, .ok ()⟩ :: ⟨.emit (.text chunk), .ok ()⟩ :: trace) r

/-- What is done with a slot of the semaphore, up to giving it back. -/
inductive ReadTrace (backend : Backend) (client : Client) (messages : List ChatMessage) :
    List Event → Except Raised Unit → Prop
  | unopened (e : Raised) (left : Reply (.release backend.id)) :
      ReadTrace backend client messages
        [⟨.stream client messages backend.model, .error e⟩, ⟨.release backend.id, left⟩]
        (left.bind fun _ => .error e)
  | read {events : List StreamEvent} {trace : List Event} {ended : Except Raised Unit}
      (h : Reads client events trace ended) (left : Reply (.release backend.id)) :
      ReadTrace backend client messages
        (⟨.stream client messages backend.model, .ok events⟩ ::
          (trace ++ [⟨.release backend.id, left⟩])) (left.bind fun _ => ended)

theorem Reads.ops {client : Client} {events : List StreamEvent} {trace : List Event}
    {r : Except Raised Unit} (h : Reads client events trace r) :
    ∀ ev ∈ trace, ContinueOp client ev.1 := by
  induction h with
  | ended r => exact List.forall_mem_singleton.mpr rfl
  | broken e => exact List.forall_mem_singleton.mpr rfl
  | usage _ ih => exact List.forall_mem_cons.mpr ⟨rfl, ih⟩
  | left e => simp [ContinueOp]
  | text _ ih => exact List.forall_mem_cons.mpr ⟨rfl, List.forall_mem_cons.mpr ⟨⟨_, rfl⟩, ih⟩⟩

section Rules
variable {C : Contract} {gw : RequestOrchestrator} {req : ChatRequest}

theorem reads_consume (hC : Admits C gw req) (client : Client) (events : List StreamEvent)
    (s : Consumed) : wp C (consume client events s) fun trace r =>
      ∃ s' ended, r = .ok (s', ended) ∧ Reads client events trace ended := by
  induction events generalizing s with
  | nil => exact wp_attempt_bind (hC.allowed _ rfl) fun r _ => ⟨s, r, rfl, .ended r⟩
  | cons event events ih =>
    refine wp_attempt_bind (hC.allowed _ rfl) fun r _ => ?_
    cases r with
    | error e => exact ⟨s, .error e, rfl, .broken e⟩
    | ok u =>
      cases event with
      | usage usage =>
        refine wp_mono (ih _) fun trace r hr => ?_
        obtain ⟨s', ended, rfl, hreads⟩ := hr
        exact ⟨s', ended, rfl, hreads.usage⟩
      | text chunk =>
        refine wp_attempt_bind (hC.allowed _ rfl) fun r _ => ?_
        cases r with
        | error e => exact ⟨_, .error e, rfl, .left e⟩
        | ok v =>
          refine wp_mono (ih _) fun trace r hr => ?_
          obtain ⟨s', ended, rfl, hreads⟩ := hr
          exact ⟨s', ended, rfl, hreads.text⟩

/-- A candidate is not entered, or its stream is read with a slot of its semaphore. -/
theorem readTrace_streamFrom (hC : Admits C gw req) (backend : Backend) (client : Client) :
    wp C (streamFrom req backend client) fun trace r => ∃ s ended, r = .ok (s, ended) ∧
      ((∃ e, trace = [⟨.acquire backend.id, .error e⟩] ∧ ended = .error e) ∨
        ∃ call, trace = ⟨.acquire backend.id, .ok ()⟩ :: call ∧
          ReadTrace backend client req.messages call ended) := by
  unfold streamFrom
  refine wp_attempt_bind (hC.allowed _ rfl) fun r _ => ?_
  cases r with
  | error e => exact ⟨{}, .error e, rfl, .inl ⟨e, rfl, rfl⟩⟩
  | ok u =>
    refine (wp_bind _).mpr (wp_mono (Q := fun trace r => ∃ s ended, r = .ok (s, ended) ∧
      ∀ left : Reply (.release backend.id), ReadTrace backend client req.messages
        (trace ++ [⟨.release backend.id, left⟩]) (left.bind fun _ => ended)) ?_
      fun trace r hr => ?_)
    · refine wp_attempt_bind (hC.allowed _ rfl) fun r _ => ?_
      cases r with
      | error e => exact ⟨{}, .error e, rfl, fun left => .unopened e left⟩
      | ok events =>
        refine wp_mono (reads_consume hC client events {}) fun trace r hr => ?_
        obtain ⟨s, ended, rfl, hreads⟩ := hr
        exact ⟨s, ended, rfl, fun left => .read hreads left⟩
    · obtain ⟨s, ended, rfl, hread⟩ := hr
      refine wp_attempt_bind (hC.allowed _ rfl) fun left _ => ?_
      cases left with
      | error e => exact ⟨s, .error e, rfl, .inr ⟨_, by simp, hread (.error e)⟩⟩
      | ok v => exact ⟨s, ended, rfl, .inr ⟨_, by simp, hread (.ok v)⟩⟩

end Rules

/-! ## What follows -/

/-- No semaphore has been entered. -/
def Unentered (trace : List Event) : Prop := ∀ ev ∈ trace, ∀ id, ev ≠ ⟨.acquire id, .ok ()⟩

theorem Unentered.of_ops {trace : List Event} (h : ∀ ev ∈ trace, ∀ id, ev.1 ≠ .acquire id) :
    Unentered trace := fun ev hev id heq => h ev hev id (congrArg Sigma.fst heq)

theorem Unentered.of_outside {trace : List Event} (h : ∀ ev ∈ trace, ev.1.outside = true) :
    Unentered trace := .of_ops fun ev hev id heq => by
  have houtside := h ev hev
  rw [heq] at houtside
  exact nomatch houtside

theorem Unentered.append {trace trace' : List Event} (h : Unentered trace)
    (h' : Unentered trace') : Unentered (trace ++ trace') := List.forall_mem_append.mpr ⟨h, h'⟩

/-- Whenever a semaphore is entered, a stream is read with the slot, and this holds of the
rest of the events and of how the reading has ended. -/
def Attends (messages : List ChatMessage) (P : Uuid → List Event → Except Raised Unit → Prop)
    (trace : List Event) : Prop :=
  ∀ earlier id rest, trace = earlier ++ ⟨.acquire id, .ok ()⟩ :: rest →
    ∃ backend client call after ended, backend.id = id ∧ rest = call ++ after ∧
      ReadTrace backend client messages call ended ∧ P id after ended

/-- A failure of the backend has been recorded. -/
def Noted (backendId : Uuid) (after : List Event) : Prop :=
  ∃ r, ⟨.record backendId false, r⟩ ∈ after

/-- The reading has failed, and the loop goes on. -/
def Fails (backendId : Uuid) (after : List Event) (ended : Except Raised Unit) : Prop :=
  Noted backendId after ∧ ∃ e, ended = .error e

/-- Every operation has returned that does not wait for a backend. -/
def Undisturbed (trace : List Event) : Prop :=
  ∀ ev ∈ trace, (∀ client, ev.1 ≠ .anext client) → ∃ a, ev.2 = .ok a

/-- What follows a reading that has succeeded: no failure is recorded, and the request
completes, with a result, exactly if nothing else raises. -/
structure Completes (after : List Event) (completed : Bool) : Prop where
  unfailed : ∀ id, ¬ Noted id after
  undisturbed : completed = true ↔ Undisturbed after
  yields : completed = true → ∃ result, ⟨.emit (.result result), .ok ()⟩ ∈ after

/-- The request ends after the reading. -/
def Ends (completed : Bool) (backendId : Uuid) (after : List Event) :
    Except Raised Unit → Prop
  | .ok _ => Completes after completed
  | .error _ => Noted backendId after ∨ completed = false

section Attends
variable {messages : List ChatMessage} {P P' : Uuid → List Event → Except Raised Unit → Prop}
  {trace trace' : List Event}

theorem Attends.of_unentered (h : Unentered trace) : Attends messages P trace := by
  rintro earlier id rest rfl
  exact absurd rfl (h ⟨.acquire id, .ok ()⟩ (by simp) id)

theorem Attends.append (h : Attends messages P trace) (h' : Attends messages P' trace')
    (hP : ∀ id after ended, P id after ended → P' id (after ++ trace') ended) :
    Attends messages P' (trace ++ trace') := by
  intro earlier id rest heq
  rcases append_eq_append_cons heq with ⟨rest', rfl, rfl⟩ | ⟨rest', rfl, hrest⟩
  · obtain ⟨backend, client, call, after, ended, hid, rfl, hread, hafter⟩ := h earlier id rest' rfl
    exact ⟨backend, client, call, after ++ trace', ended, hid, by simp, hread, hP _ _ _ hafter⟩
  · exact h' rest' id rest hrest

theorem Attends.after_lead (h : Unentered trace) (h' : Attends messages P trace') :
    Attends messages P (trace ++ trace') :=
  Attends.append (P := fun _ _ _ => False) (.of_unentered h) h' fun _ _ _ => False.elim

theorem ReadTrace.unentered {backend : Backend} {client : Client} {ended : Except Raised Unit}
    (h : ReadTrace backend client messages trace ended) : Unentered trace := by
  refine .of_ops fun ev hev id heq => ?_
  cases h with
  | unopened e left =>
    simp only [List.mem_cons, List.not_mem_nil, or_false] at hev
    rcases hev with rfl | rfl <;> cases heq
  | read hreads left =>
    rcases List.mem_cons.mp hev with rfl | hev
    · cases heq
    · rcases List.mem_append.mp hev with hev | hev
      · have hop := hreads.ops ev hev
        rw [heq] at hop
        exact hop
      · obtain rfl := List.mem_singleton.mp hev
        cases heq

theorem Attends.of_read {backend : Backend} {client : Client} {call after : List Event}
    {ended : Except Raised Unit} (hread : ReadTrace backend client messages call ended)
    (hafter : Unentered after) (hP : P backend.id after ended) :
    Attends messages P (⟨.acquire backend.id, .ok ()⟩ :: call ++ after) := by
  intro earlier id rest heq
  rw [List.cons_append] at heq
  rcases List.cons_eq_append_iff.mp heq with ⟨rfl, hcons⟩ | ⟨earlier', rfl, hrest⟩
  · obtain ⟨hacquire, rfl⟩ := List.cons.inj hcons
    obtain rfl := Op.acquire.inj (congrArg Sigma.fst hacquire)
    exact ⟨backend, client, call, after, ended, rfl, rfl, hread, hP⟩
  · have hquiet := hread.unentered.append hafter
    rw [hrest] at hquiet
    exact absurd rfl (hquiet ⟨.acquire id, .ok ()⟩ (by simp) id)

end Attends

/-- The bookkeeping of an answered stream. -/
theorem Completes.of_logs {req : ChatRequest} {backend : Backend} {after : List Event}
    {r : Except Raised α} (h : Logs (SettleOp req backend) (Tail true) 200 after r) :
    Completes after r.isOk ∧ Unentered after := by
  have hsucceeded : ∀ ev ∈ after, ∀ id, ev.1 ≠ .record id false := by
    refine h.forall_mem (P := fun op => ∀ id, op ≠ .record id false) (fun op hop id heq => ?_)
      (by simp) fun trace r htail ev hev id heq => ?_
    · rw [heq] at hop
      exact nomatch hop.2
    · have hop := htail.ops ev hev
      rw [heq] at hop
      exact hop
  have hended := h.ended fun _ _ htail => htail.ended
  refine ⟨⟨fun id ⟨reply, hmem⟩ => hsucceeded _ hmem id rfl, ?_, fun hok => ?_⟩,
    .of_outside h.outside_of_settled⟩
  · cases r with
    | ok a => exact iff_of_true rfl fun ev hev _ => hended ev hev
    | error e =>
      refine iff_of_false (by simp [Except.isOk, Except.toBool]) fun hsmooth => ?_
      obtain ⟨op, hop⟩ := hended.raised
      obtain ⟨a, ha⟩ := hsmooth _ hop fun client heq => by
        have houtside := h.outside_of_settled _ hop
        rw [heq] at houtside
        exact nomatch houtside
      exact nomatch ha
  · cases h with
    | early _ _ => simp [Except.isOk, Except.toBool] at hok
    | refused _ _ _ => simp [Except.isOk, Except.toBool] at hok
    | logged _ _ _ htail =>
      cases r with
      | error e => simp [Except.isOk, Except.toBool] at hok
      | ok a =>
        obtain ⟨result, hresult⟩ := (htail.yields rfl).mpr ⟨a, rfl⟩
        exact ⟨result, by simp [hresult]⟩

/-! ## The handler attends its streams -/

section Handler
variable {C : Contract} {gw : RequestOrchestrator} {req : ChatRequest}

/-- A candidate of a stream. -/
def AttendsPass (messages : List ChatMessage) (trace : List Event) :
    Except Raised (Pass α) → Prop
  | .ok (.next _) => Attends messages Fails trace
  | .ok (.done _) => Attends messages (Ends true) trace
  | .error _ => Attends messages (Ends false) trace

theorem AttendsPass.of_answered {backend : Backend} {client : Client} {call : List Event}
    {messages : List ChatMessage} (hread : ReadTrace backend client messages call (.ok ()))
    {x : Action (Pass α)} (hx : wp C x (Logs (SettleOp req backend)
      (fun trace r => Tail true trace r ∧ ∀ pass, r = .ok pass → ∃ a, pass = .done a) 200)) :
    wp C x fun after r =>
      AttendsPass messages (⟨.acquire backend.id, .ok ()⟩ :: call ++ after) r := by
  refine wp_mono hx fun after r hr => ?_
  obtain ⟨hlogs, hdone⟩ := hr.split fun _ _ h => nomatch h
  obtain ⟨hcompletes, hquiet⟩ := Completes.of_logs hlogs
  cases r with
  | error e => exact .of_read hread hquiet hcompletes
  | ok pass =>
    obtain ⟨a, rfl⟩ := hdone pass rfl
    exact .of_read hread hquiet hcompletes

theorem attends_streamWith (hC : Admits C gw req) (start : Time)
    (reservation : Resilience.RateLimit.ReservationId) (backend : Backend) (client : Client) :
    wp C (streamWith gw req start reservation backend client) (AttendsPass req.messages) := by
  unfold streamWith
  refine (wp_bind _).mpr (wp_mono (readTrace_streamFrom hC backend client) ?_)
  rintro trace _ ⟨s, ended, rfl, htrace⟩
  cases ended with
  | ok u =>
    obtain ⟨_, _, hnone⟩ | ⟨call, rfl, hread⟩ := htrace
    · exact nomatch hnone
    refine AttendsPass.of_answered hread
      (logs_settle hC start reservation backend _ _ _ _ fun latency => ?_)
    refine wp_mono (Tail.of_yield hC (straight_incr hC ⟨by simp [TailOp], by simp⟩))
      fun trace r hr => ?_
    exact ⟨hr.1, fun pass hpass => ⟨_, hr.2 pass hpass⟩⟩
  | error e =>
    have hfailed : ∀ {P : Uuid → List Event → Except Raised Unit → Prop} {after : List Event},
        Unentered after → P backend.id after (.error e) →
        Attends req.messages P (trace ++ after) := by
      intro P after hquiet hP
      obtain ⟨e', rfl, -⟩ | ⟨call, rfl, hread⟩ := htrace
      · exact .of_unentered (.append (by simp [Unentered]) hquiet)
      · exact .of_read hread hquiet hP
    have hnoted : ∀ r : Reply (.record backend.id false),
        Noted backend.id [⟨.record backend.id false, r⟩] := fun r => ⟨r, List.mem_singleton_self _⟩
    have hquiet : ∀ r : Reply (.record backend.id false),
        Unentered [⟨.record backend.id false, r⟩] := fun r => .of_ops (by simp)
    dsimp only
    split
    · refine wp_call_bind (hC.allowed _ rfl)
        (fun e' _ => hfailed (hquiet _) (.inl (hnoted _))) fun u _ => ?_
      split
      · exact hfailed (hquiet _) (.inl (hnoted _))
      · exact hfailed (hquiet _) ⟨hnoted _, e, rfl⟩
    · have hcancelled : Attends req.messages (Ends false) (trace ++ []) :=
        hfailed (by simp [Unentered]) (.inr rfl)
      exact (wp_throw _ _).mpr hcancelled

/-- The failover loop over streams. -/
theorem attends_walk (hC : Admits C gw req) {stopped : Raised}
    {body : Backend → Client → Action (Pass α)} {exhausted : Option Raised → Action α}
    (hbody : ∀ backend client, wp C (body backend client) (AttendsPass req.messages))
    (hexhausted : ∀ err, wp C (exhausted err) fun trace _ => Unentered trace)
    (remaining : List (Backend × Client)) (err : Option Raised) :
    wp C (walk req stopped body exhausted remaining err) fun trace r =>
      Attends req.messages (Ends r.isOk) trace := by
  suffices h : WalkRule C req stopped body exhausted (fun _ _ => True)
      (fun _ _ trace r => Attends req.messages (Ends r.isOk) trace) from h.wp_walk trivial
  have hselected : ∀ {rem : List (Backend × Client)} {chosen : Backend} {id : Uuid}
      {verdict : Reply (.allow id)}, Unentered [⟨.select (rem.map Prod.fst) (features req),
        .ok chosen⟩, ⟨.allow id, verdict⟩] := .of_ops (by simp)
  refine ⟨fun _ _ => hC.allowed _ rfl, fun _ _ _ => .of_unentered (.of_ops (by simp)),
    fun _ _ _ _ => .of_unentered (.of_ops (by simp)), fun _ _ => hC.allowed _ rfl,
    fun _ _ _ => .of_unentered hselected, ?_, ?_, fun _ => ?_⟩
  · exact fun _ _ _ _ => ⟨trivial, fun _ _ hrest => hrest.after_lead hselected⟩
  · intro rem err chosen backend client _ _ _ _
    refine wp_mono (hbody backend client) fun trace r hr => ?_
    cases r with
    | error e => exact hr.after_lead hselected
    | ok pass =>
      cases pass with
      | done a => exact hr.after_lead hselected
      | next err' =>
        refine ⟨trivial, fun trace' r' hrest => .after_lead hselected (hr.append hrest ?_)⟩
        rintro id after ended ⟨⟨reply, hnoted⟩, e, rfl⟩
        exact .inl ⟨reply, List.mem_append_left _ hnoted⟩
  · exact wp_mono (hexhausted _) fun _ _ hr => .of_unentered hr

/-- Whenever a run of the handler enters a semaphore, it reads a stream. -/
theorem attends_handleStream (hC : Admits C gw req) :
    wp C (handleStream gw req) fun trace r => Attends req.messages (Ends r.isOk) trace := by
  rw [handleStream_eq]
  have hlead : ∀ {reply : Reply .perfCounter} {lead : List Event}, (∀ ev ∈ lead, LeadOp req ev.1) →
      Unentered (⟨.perfCounter, reply⟩ :: lead) := fun h =>
    .of_outside (List.forall_mem_cons.mpr ⟨rfl, fun ev hev => (h ev hev).outside⟩)
  refine wp_pipeline hC (fun _ lead r h => .of_unentered (hlead h)) (fun start reservation hit lead
    h => ?_) fun start reservation remaining lead h => ?_
  · refine wp_mono (logs_streamHit hC start reservation hit) fun trace r hlogs => ?_
    exact .after_lead (hlead h) (.of_unentered (.of_outside hlogs.outside_of_hit))
  · have hexhausted : ∀ err, wp C (logUnavailable req start >>= fun _ =>
        (throw (.allBackendsUnavailable err) : Action Unit)) fun trace _ => Unentered trace := by
      intro err
      refine wp_mono (logs_logUnavailable hC start
        ((wp_throw _ fun trace _ => trace = []).mpr rfl)) fun trace r hlogs => ?_
      exact .of_outside (hlogs.outside (fun _ => ClockOp.outside) fun _ _ htail => by simp [htail])
    exact wp_mono (attends_walk hC (attends_streamWith hC start reservation) hexhausted remaining
      none) fun trace r hr => .after_lead (hlead h) hr

end Handler

/-! ## The backend, the consumer and the limit -/

/-- What the backend produces after a delay, and how long the consumer keeps it if it is a
chunk of text. -/
structure Arrival where
  delay : Time
  event : StreamEvent
  hold : Time

def Arrival.turn (a : Arrival) : Turn Time :=
  match a.event with
  | .text _ => ⟨a.delay, a.hold⟩
  | .usage _ => ⟨a.delay, 0⟩

def timeoutError : Raised := .failure "TimeoutError"

section Plays
variable (env : Timed) (passing : Passing) (deadline : Time) (client : Client) (last : Time)

/-- From this past on the backend and the consumer go by the plan, and the stream ends after
a last delay. A wait that the limit ends raises, and a consumer whose hold it ends is
cancelled. -/
def Plays : List Event → List Arrival → Prop
  | past, [] => env.answer past (.anext client) =
      if TimesOut passing deadline (env.clock past) last then .error timeoutError else .ok ()
  | past, a :: plan =>
    if TimesOut passing deadline (env.clock past) a.delay then
      env.answer past (.anext client) = .error timeoutError
    else
      env.answer past (.anext client) = .ok () ∧
      env.clock (past ++ [⟨.anext client, .ok ()⟩]) = env.clock past + a.delay ∧
      match a.event with
      | .usage _ => Plays (past ++ [⟨.anext client, .ok ()⟩]) plan
      | .text chunk =>
        if Interrupts passing deadline (env.clock past + a.delay) a.hold then
          env.answer (past ++ [⟨.anext client, .ok ()⟩]) (.emit (.text chunk)) = .error .cancelled
        else
          env.answer (past ++ [⟨.anext client, .ok ()⟩]) (.emit (.text chunk)) = .ok () ∧
          env.clock (past ++ [⟨.anext client, .ok ()⟩, ⟨.emit (.text chunk), .ok ()⟩]) =
            env.clock past + a.delay + a.hold ∧
          Plays (past ++ [⟨.anext client, .ok ()⟩, ⟨.emit (.text chunk), .ok ()⟩]) plan

end Plays

/-- A consumer does not hold what it does not get. -/
theorem not_interrupts_zero {passing : Passing} {deadline now : Time} :
    ¬ Interrupts passing deadline now 0 := fun h => by
  have hlt := h.1
  rw [add_zero] at hlt
  exact absurd h.2.1 (not_le.mpr hlt)

/-- A stream is read to its end if the limit ends no wait and no hold, else it breaks. -/
theorem Plays.ended {env : Timed} {passing : Passing} {deadline last : Time} {client : Client}
    {plan : List Arrival} {past trace : List Event} {ended : Except Raised Unit}
    (hplays : Plays env passing deadline client last past plan)
    (hreads : Reads client (plan.map Arrival.event) trace ended)
    (hanswered : Justified (fun past ev => ev.2 = env.answer past ev.1) past trace) :
    (InTime passing deadline (env.clock past) (plan.map Arrival.turn) last ∧ ended = .ok () ∧
      Undisturbed trace) ∨
    (¬ InTime passing deadline (env.clock past) (plan.map Arrival.turn) last ∧
      ∃ e, ended = .error e) := by
  induction plan generalizing past trace with
  | nil =>
    cases hreads
    have hended := hanswered.1.trans hplays
    by_cases hover : TimesOut passing deadline (env.clock past) last
    · rw [if_pos hover] at hended
      exact .inr ⟨fun hin => hin hover, _, hended⟩
    · rw [if_neg hover] at hended
      exact .inl ⟨hover, hended, by simp [Undisturbed]⟩
  | cons a plan ih =>
    obtain ⟨delay, event, hold⟩ := a
    rw [List.map_cons] at hreads
    unfold Plays at hplays
    by_cases hover : TimesOut passing deadline (env.clock past) delay
    · -- the wait raises, so the stream breaks here
      rw [if_pos hover] at hplays
      refine .inr ⟨by cases event <;> exact fun hin => hin.1 hover, ?_⟩
      cases hreads with
      | broken e => exact ⟨e, rfl⟩
      | usage _ => exact nomatch hanswered.1.trans hplays
      | left e => exact nomatch hanswered.1.trans hplays
      | text _ => exact nomatch hanswered.1.trans hplays
    rw [if_neg hover] at hplays
    obtain ⟨hok, hclock, hplays⟩ := hplays
    have hwaited : ∀ {trace : List Event}, Undisturbed trace →
        Undisturbed (⟨.anext client, .ok ()⟩ :: trace) := fun h =>
      List.forall_mem_cons.mpr ⟨fun hwait => absurd rfl (hwait client), h⟩
    cases event with
    | usage u =>
      have hin : InTime passing deadline (env.clock past)
          ((⟨delay, .usage u, hold⟩ :: plan).map Arrival.turn) last ↔
          InTime passing deadline (env.clock past + delay) (plan.map Arrival.turn) last := by
        simp [InTime, Arrival.turn, hover, not_interrupts_zero]
      cases hreads with
      | broken e => exact nomatch hanswered.1.trans hok
      | usage hreads =>
        rw [hin, ← hclock]
        exact (ih hplays hreads hanswered.2).imp_left fun h => ⟨h.1, h.2.1, hwaited h.2.2⟩
    | text chunk =>
      dsimp only at hplays
      by_cases hheld : Interrupts passing deadline (env.clock past + delay) hold
      · -- the consumer is cancelled while it holds the chunk
        rw [if_pos hheld] at hplays
        refine .inr ⟨fun hin => hin.2.1 hheld, ?_⟩
        cases hreads with
        | broken e => exact nomatch hanswered.1.trans hok
        | left e => exact ⟨e, rfl⟩
        | text hreads => exact nomatch hanswered.2.1.trans hplays
      rw [if_neg hheld] at hplays
      obtain ⟨hemit, hclock', hplays⟩ := hplays
      have hin : InTime passing deadline (env.clock past)
          ((⟨delay, .text chunk, hold⟩ :: plan).map Arrival.turn) last ↔
          InTime passing deadline (env.clock past + delay + hold) (plan.map Arrival.turn) last := by
        simp [InTime, Arrival.turn, hover, hheld]
      cases hreads with
      | broken e => exact nomatch hanswered.1.trans hok
      | left e => exact nomatch hanswered.2.1.trans hemit
      | text hreads =>
        have hlater := hanswered.2.2
        rw [List.append_assoc, List.singleton_append] at hlater
        rw [hin, ← hclock']
        refine (ih hplays hreads hlater).imp_left fun h => ⟨h.1, h.2.1, hwaited ?_⟩
        exact List.forall_mem_cons.mpr ⟨fun _ => ⟨_, rfl⟩, h.2.2⟩

/-- A run of the handler enters the semaphore of this backend and reads a stream of this
client under the limit, which counts from there. -/
structure Streams (gw : RequestOrchestrator) (req : ChatRequest) (env : Timed) (timeout : Time)
    (passing : Passing) (backend : Backend) (client : Client) (plan : List Arrival) (last : Time)
    (earlier rest : List Event) : Prop where
  run_eq : (Program.run env.answer [] (handleStream gw req).run).1 =
    earlier ++ ⟨.acquire backend.id, .ok ()⟩ ::
      ⟨.stream client req.messages backend.model, .ok (plan.map Arrival.event)⟩ :: rest
  opens : env.clock (earlier ++ [⟨.acquire backend.id, .ok ()⟩,
      ⟨.stream client req.messages backend.model, .ok (plan.map Arrival.event)⟩]) =
    env.clock (earlier ++ [⟨.acquire backend.id, .ok ()⟩])
  plays : Plays env passing (env.clock (earlier ++ [⟨.acquire backend.id, .ok ()⟩]) + timeout)
    client last (earlier ++ [⟨.acquire backend.id, .ok ()⟩,
      ⟨.stream client req.messages backend.model, .ok (plan.map Arrival.event)⟩]) plan

section Limit
variable {gw : RequestOrchestrator} {req : ChatRequest} {env : Timed} {timeout last : Time}
  {passing : Passing} {backend : Backend} {client : Client} {plan : List Arrival}
  {earlier rest : List Event}

/-- How the reading of a stream goes on. -/
theorem Streams.attended (h : Streams gw req env timeout passing backend client plan last earlier
    rest) : ∃ trace left after ended,
      rest = trace ++ ⟨.release backend.id, left⟩ :: after ∧
      (∀ ev ∈ trace, ContinueOp client ev.1) ∧
      ((InTime passing timeout 0 (plan.map Arrival.turn) last ∧ ended = .ok () ∧
        Undisturbed trace) ∨
      (¬ InTime passing timeout 0 (plan.map Arrival.turn) last ∧ ∃ e, ended = .error e)) ∧
      Ends (Program.run env.answer [] (handleStream gw req).run).2.isOk backend.id after
        (left.bind fun _ => ended) := by
  have hattends : Attends req.messages
      (Ends (Program.run env.answer [] (handleStream gw req).run).2.isOk)
      (Program.run env.answer [] (handleStream gw req).run).1 :=
    Program.wp_run (attends_handleStream (C := .expecting fun _ _ => True)
      (.of_allowed fun _ => trivial)) (fun _ _ => trivial) []
  obtain ⟨backend', client', call, after, ended, hid, hcall, hread, hends⟩ :=
    hattends earlier backend.id _ h.run_eq
  cases hread with
  | unopened e left =>
    obtain ⟨hstream, -⟩ := List.cons.inj hcall
    exact nomatch eq_of_heq (Sigma.mk.inj hstream).2
  | @read events trace ended hreads left =>
    obtain ⟨hstream, hrest⟩ := List.cons.inj hcall
    obtain ⟨hop, hreply⟩ := Sigma.mk.inj hstream
    obtain ⟨rfl, -, hmodel⟩ := Op.stream.inj hop
    rw [hmodel] at hstream
    obtain rfl : plan.map Arrival.event = events := by simpa using hstream
    have hsplit : rest = trace ++ ⟨.release backend.id, left⟩ :: after := by
      rw [hrest, ← hid]
      simp
    have hanswered := Program.run_answered env.answer [] (handleStream gw req).run
    rw [h.run_eq, hsplit, justified_append] at hanswered
    have hread := (justified_append.mp hanswered.2.2.2).1
    rw [List.nil_append, List.append_assoc, List.singleton_append] at hread
    have hended := h.plays.ended hreads hread
    rw [h.opens, inTime_origin] at hended
    exact ⟨trace, left, after, ended, hsplit, hreads.ops, hended, hends⟩

/-- No wait and no hold takes less than no time. -/
def Forward (plan : List Arrival) (last : Time) : Prop :=
  (∀ a ∈ plan, 0 ≤ a.delay ∧ 0 ≤ a.hold) ∧ 0 ≤ last

theorem Forward.turns (h : Forward plan last) :
    ∀ turn ∈ plan.map Arrival.turn, 0 ≤ turn.wait ∧ 0 ≤ turn.hold := by
  refine List.forall_mem_map.mpr fun a ha => ?_
  obtain ⟨hdelay, hhold⟩ := h.1 a ha
  unfold Arrival.turn
  split
  · exact ⟨hdelay, hhold⟩
  · exact ⟨hdelay, le_rfl⟩

theorem undisturbed_released {trace after : List Event} {id : Uuid} {left : Reply (.release id)}
    (h : Undisturbed trace) : Undisturbed (trace ++ ⟨.release id, left⟩ :: after) ↔
      (∃ u, left = .ok u) ∧ Undisturbed after := by
  unfold Undisturbed
  rw [List.forall_mem_append, List.forall_mem_cons]
  exact ⟨fun hall => ⟨hall.2.1 (by simp), hall.2.2⟩, fun hall => ⟨h, fun _ => hall.1, hall.2⟩⟩

/-- A stream that completes without a failure of its backend has been in time. -/
theorem Streams.inTime_of_completed
    (h : Streams gw req env timeout passing backend client plan last earlier rest)
    (hunfailed : ¬ Noted backend.id rest)
    (hok : (Program.run env.answer [] (handleStream gw req).run).2 = .ok ()) :
    InTime passing timeout 0 (plan.map Arrival.turn) last ∧ Undisturbed rest := by
  obtain ⟨trace, left, after, ended, rfl, -, hended, hends⟩ := h.attended
  have hquiet : ¬ Noted backend.id after := fun ⟨r, hr⟩ => hunfailed ⟨r, by simp [hr]⟩
  rw [hok] at hends
  cases left with
  | error e => exact nomatch hends.resolve_left hquiet
  | ok u =>
    obtain ⟨hin, rfl, htrace⟩ | ⟨-, e, rfl⟩ := hended
    · exact ⟨hin, (undisturbed_released htrace).mpr ⟨⟨u, rfl⟩, hends.undisturbed.mp rfl⟩⟩
    · exact nomatch hends.resolve_left hquiet

/-- A stream in time, after which nothing else raises, is completed. -/
theorem Streams.completes
    (h : Streams gw req env timeout passing backend client plan last earlier rest)
    (hin : InTime passing timeout 0 (plan.map Arrival.turn) last) (hrest : Undisturbed rest) :
    ¬ Noted backend.id rest ∧ (∃ result, ⟨.emit (.result result), .ok ()⟩ ∈ rest) ∧
      (Program.run env.answer [] (handleStream gw req).run).2 = .ok () := by
  obtain ⟨trace, left, after, ended, rfl, hops, hended, hends⟩ := h.attended
  obtain ⟨-, rfl, htrace⟩ := hended.resolve_right fun hlate => hlate.1 hin
  obtain ⟨⟨u, rfl⟩, hafter⟩ := (undisturbed_released htrace).mp hrest
  have hcompletes : Completes after
      (Program.run env.answer [] (handleStream gw req).run).2.isOk := hends
  have hok := hcompletes.undisturbed.mpr hafter
  refine ⟨?_, ?_, ?_⟩
  · rintro ⟨r, hr⟩
    rcases List.mem_append.mp hr with hr | hr
    · exact hops _ hr
    · rcases List.mem_cons.mp hr with heq | hr
      · exact nomatch congrArg Sigma.fst heq
      · exact hcompletes.unfailed _ ⟨r, hr⟩
  · obtain ⟨result, hresult⟩ := hcompletes.yields hok
    exact ⟨result, by simp [hresult]⟩
  · cases hr : (Program.run env.answer [] (handleStream gw req).run).2 with
    | ok u => rfl
    | error e =>
      rw [hr] at hok
      exact nomatch hok

end Limit

/-- A stream that ends normally is completed, with a result and with no failure of its
backend recorded, exactly if the limit ends none of the waits for the backend and none of the
consumer's holds, and nothing else raises. It ends none of them if all together fit into the
limit, and only then unless a limit that passes during a hold ends nothing. -/
theorem slow_reader_iff (gw : RequestOrchestrator) (req : ChatRequest) (env : Timed)
    {timeout last : Time} {passing : Passing} {backend : Backend} {client : Client}
    {plan : List Arrival} {earlier rest : List Event}
    (h : Streams gw req env timeout passing backend client plan last earlier rest) :
    ((¬ Noted backend.id rest ∧ (∃ result, ⟨.emit (.result result), .ok ()⟩ ∈ rest) ∧
      (Program.run env.answer [] (handleStream gw req).run).2 = .ok ()) ↔
      InTime passing timeout 0 (plan.map Arrival.turn) last ∧ Undisturbed rest) ∧
    (Forward plan last → spent (plan.map Arrival.turn) + last ≤ timeout →
      InTime passing timeout 0 (plan.map Arrival.turn) last) ∧
    (Forward plan last → 0 ≤ timeout → passing ≠ .nothing →
      InTime passing timeout 0 (plan.map Arrival.turn) last →
      spent (plan.map Arrival.turn) + last ≤ timeout) := by
  refine ⟨⟨fun ⟨hunfailed, _, hok⟩ => h.inTime_of_completed hunfailed hok,
    fun ⟨hin, hrest⟩ => h.completes hin hrest⟩, fun hforward htotal => ?_, ?_⟩
  · exact inTime_of_le hforward.turns hforward.2 (by rwa [zero_add])
  · intro hforward htimeout hpassing hin
    have htotal := (inTime_iff_le hpassing hforward.turns hforward.2 htimeout).mp hin
    rwa [zero_add] at htotal

/-! ## A chunk that is kept too long -/

/-- The backend takes two seconds for every step, and the consumer keeps its chunk. -/
def stepTime (hold : Time) : Event → Time
  | ⟨.anext _, .ok _⟩ => 2
  | ⟨.anext _, .error _⟩ => 1
  | ⟨.emit (.text _), _⟩ => hold
  | _ => 0

def stepClock (hold : Time) (past : List Event) : Time := (past.map (stepTime hold)).sum

/-- A stream of one chunk with a limit of ten seconds. -/
def oneChunk (hold : Time) (hhold : 0 ≤ hold) : Timed where
  answer past
    | .perfCounter => .ok (stepClock hold past)
    | .stream .. => .ok [.text "hi"]
    | .anext _ =>
      if TimesOut .nothing 10 (stepClock hold past) 2 then .error timeoutError else .ok ()
    | op => failoverAnswer op
  clock := stepClock hold
  forward past ev := by
    have htime : 0 ≤ stepTime hold ev := by
      unfold stepTime
      split <;> first | exact hhold | norm_num
    simpa [stepClock] using htime
  reads _ := rfl

def hiStream (env : Timed) : List Event × Except Raised Unit :=
  Program.run env.answer [] (handleStream zeroDigest hiRequest).run

/-- Waiting for the backend and passing something on. -/
def Op.steps : Op → Bool
  | .anext _ | .emit _ => true
  | _ => false

theorem stepClock_eq_zero (hold : Time) {past : List Event}
    (h : (past.all fun ev => !ev.1.steps) = true) : stepClock hold past = 0 := by
  refine List.sum_eq_zero fun t ht => ?_
  obtain ⟨⟨op, r⟩, hev, rfl⟩ := List.mem_map.mp ht
  have hop := List.all_eq_true.mp h _ hev
  cases op <;> first | rfl | simp [Op.steps] at hop

/-- From a past in which nothing has taken time. -/
theorem stepClock_append (hold : Time) {past : List Event} (hpast : stepClock hold past = 0)
    (later : List Event) : stepClock hold (past ++ later) = stepClock hold later := by
  have hsum : stepClock hold (past ++ later) = stepClock hold past + stepClock hold later := by
    simp [stepClock]
  rw [hsum, hpast, zero_add]

theorem plays_oneChunk (hold : Time) (hhold : 0 ≤ hold) {past : List Event}
    (hpast : stepClock hold past = 0) :
    Plays (oneChunk hold hhold) .nothing 10 ⟨0⟩ 2 past [⟨2, .text "hi", hold⟩] := by
  have hfirst : ¬ TimesOut .nothing 10 0 (2 : Time) := by decide +kernel
  have hclock : (oneChunk hold hhold).clock past = 0 := hpast
  have hanswer : (oneChunk hold hhold).answer past (.anext ⟨0⟩) =
      if TimesOut .nothing 10 ((oneChunk hold hhold).clock past) 2 then .error timeoutError
      else .ok () := rfl
  have hheld : ¬ Interrupts .nothing (10 : Time) (0 + 2) hold := fun h => nomatch h.2.2
  unfold Plays
  rw [hanswer, hclock, if_neg hfirst, if_neg hfirst]
  refine ⟨rfl, (stepClock_append hold hpast _).trans (by simp [stepClock, stepTime]), ?_⟩
  dsimp only
  rw [if_neg hheld]
  exact ⟨rfl, (stepClock_append hold hpast _).trans (by simp [stepClock, stepTime]), rfl⟩

theorem streams_oneChunk (hold : Time) (hhold : 0 ≤ hold) :
    Streams zeroDigest hiRequest (oneChunk hold hhold) 10 .nothing
      ⟨0, "broken", .ollama, "e", "m", 100, true, 0, 0⟩ ⟨0⟩ [⟨2, .text "hi", hold⟩] 2
      ((hiStream (oneChunk hold hhold)).1.take 7) ((hiStream (oneChunk hold hhold)).1.drop 9) := by
  have hbegun : stepClock hold ((hiStream (oneChunk hold hhold)).1.take 7) = 0 := by
    refine stepClock_eq_zero hold ?_
    unfold hiStream handleStream
    rw [walk_evaluates]
    rfl
  have hentry : ∀ later, (later.all fun ev => !ev.1.steps) = true →
      (oneChunk hold hhold).clock ((hiStream (oneChunk hold hhold)).1.take 7 ++ later) = 0 := by
    intro later hlater
    exact (stepClock_append hold hbegun later).trans (stepClock_eq_zero hold hlater)
  refine ⟨?_, (hentry _ rfl).trans (hentry _ rfl).symm, ?_⟩
  · unfold hiStream handleStream
    rw [walk_evaluates]
    rfl
  · rw [hentry _ rfl, zero_add]
    exact plays_oneChunk hold hhold (hentry _ rfl)

/-- Whether the operation has returned or waits for a backend. -/
def returned : Event → Bool
  | ⟨.anext _, _⟩ => true
  | ⟨_, .ok _⟩ => true
  | ⟨_, .error _⟩ => false

theorem Undisturbed.of_all {trace : List Event} (h : trace.all returned = true) :
    Undisturbed trace := by
  intro ⟨op, r⟩ hev hwait
  have hreturned := List.all_eq_true.mp h _ hev
  cases r with
  | ok a => exact ⟨a, rfl⟩
  | error e => cases op <;> first | exact absurd rfl (hwait _) | simp [returned] at hreturned

/-- Whether the event records a failure of the backend. -/
def notes (backendId : Uuid) : Event → Bool
  | ⟨.record id false, _⟩ => id == backendId
  | _ => false

theorem Noted.of_any {backendId : Uuid} {trace : List Event}
    (h : trace.any (notes backendId) = true) : Noted backendId trace := by
  obtain ⟨ev, hev, hnotes⟩ := List.any_eq_true.mp h
  unfold notes at hnotes
  split at hnotes
  · obtain rfl := eq_of_beq hnotes
    exact ⟨_, hev⟩
  · simp at hnotes

/-- The chunk is taken at once. -/
theorem slow_reader_iff_prompt :
    ¬ Noted 0 ((hiStream (oneChunk 0 le_rfl)).1.drop 9) ∧
      (∃ result, ⟨.emit (.result result), .ok ()⟩ ∈ (hiStream (oneChunk 0 le_rfl)).1.drop 9) ∧
      (hiStream (oneChunk 0 le_rfl)).2 = .ok () := by
  refine (slow_reader_iff zeroDigest hiRequest (oneChunk 0 le_rfl)
    (streams_oneChunk 0 le_rfl)).1.mpr ⟨by decide +kernel, .of_all ?_⟩
  unfold hiStream handleStream
  rw [walk_evaluates]
  decide +kernel

/-- The waits take four seconds of the ten, but the chunk is kept for seven. -/
theorem slow_reader_noted : ∃ env timeout passing backend client plan last earlier rest,
    Streams zeroDigest hiRequest env timeout passing backend client plan last earlier rest ∧
    (plan.map Arrival.delay).sum + last ≤ timeout ∧ Noted backend.id rest ∧
    (hiStream env).2 ≠ .ok () := by
  refine ⟨_, _, _, _, _, _, _, _, _, streams_oneChunk 7 (by norm_num), by decide +kernel,
    .of_any ?_, fun hok => ?_⟩
  · unfold hiStream handleStream
    rw [walk_evaluates]
    decide +kernel
  · have hraised : (hiStream (oneChunk 7 (by norm_num))).2.isOk = false := by
      unfold hiStream handleStream
      rw [walk_evaluates]
      decide +kernel
    rw [hok] at hraised
    exact nomatch hraised

end InferenceGateway.Orchestrator
