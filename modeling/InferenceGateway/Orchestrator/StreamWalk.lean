import InferenceGateway.Library.Schedule
import InferenceGateway.Orchestrator.Evaluation
import InferenceGateway.Orchestrator.Failover

/-!
# The walk of a stream

`handle_stream` may fail over only until the first text has been yielded. So all the text
it yields comes from one stream, in order and up to the point where that stream ends or
breaks, and a `CompletionResult` is yielded only after a stream that ended normally.
-/
namespace InferenceGateway.Orchestrator
open Library Library.Action

def StreamEvent.text? : StreamEvent → Option String
  | .text chunk => some chunk
  | .usage _ => none

def StreamEvent.usage? : StreamEvent → Option Usage
  | .text _ => none
  | .usage u => some u

def texts (events : List StreamEvent) : List String := events.filterMap StreamEvent.text?

def lastUsage (events : List StreamEvent) : Option Usage :=
  (events.filterMap StreamEvent.usage?).getLast?

/-- The closing event after all of these events. -/
def streamResult (backend : Backend) (events : List StreamEvent) : CompletionResult :=
  ⟨String.join (texts events), backend.model, ((lastUsage events).map Usage.tokensIn).getD 0,
    ((lastUsage events).map Usage.tokensOut).getD 0,
    ((lastUsage events).map Usage.finishReason).getD (some "stop"), none, some backend.name⟩

/-- The reads of these events, each text handed on before the next read. -/
def reading (client : Client) (events : List StreamEvent) : List Observation :=
  events.flatMap fun
    | .text chunk => [.pulled client (.ok ()), .emitted (.text chunk)]
    | .usage _ => [.pulled client (.ok ())]

/-! ## Reading one stream -/

/-- The loop over a stream ends normally after all events and the end of the stream, or
with the exception of a read. -/
inductive Consumes (client : Client) (events : List StreamEvent) (s : Consumed)
    (shown : List Observation) : Consumed × Except Raised Unit → Prop
  | ended {s' : Consumed} (hshown : shown = reading client events ++ [.pulled client (.ok ())])
      (htexts : s'.accumulated = s.accumulated ++ texts events)
      (husage : s'.usage = (lastUsage events).or s.usage) :
      Consumes client events s shown (s', .ok ())
  | raised {s' : Consumed} {e : Raised} (read : List StreamEvent) (hpre : read <+: events)
      (hshown : shown = reading client read ++ [.pulled client (.error e)])
      (hyielded : s'.anyYielded = (s.anyYielded || !(texts read).isEmpty)) :
      Consumes client events s shown (s', .error e)

theorem Consumes.usage {client : Client} {events : List StreamEvent} {s : Consumed}
    {shown : List Observation} {r : Consumed × Except Raised Unit} {u : Usage}
    (h : Consumes client events { s with usage := some u } shown r) :
    Consumes client (.usage u :: events) s (.pulled client (.ok ()) :: shown) r := by
  cases h with
  | ended hshown htexts husage =>
    refine .ended (by rw [hshown]; rfl) htexts (husage.trans ?_)
    simp only [lastUsage, List.filterMap_cons, StreamEvent.usage?, List.getLast?_cons]
    cases (events.filterMap StreamEvent.usage?).getLast? <;> rfl
  | raised read hpre hshown hyielded =>
    exact .raised (.usage u :: read) (List.cons_prefix_cons.mpr ⟨rfl, hpre⟩) (by rw [hshown]; rfl)
      hyielded

theorem Consumes.text {client : Client} {events : List StreamEvent} {s : Consumed}
    {shown : List Observation} {r : Consumed × Except Raised Unit} {chunk : String}
    (h : Consumes client events
      { s with accumulated := s.accumulated ++ [chunk], anyYielded := true } shown r) :
    Consumes client (.text chunk :: events) s
      (.pulled client (.ok ()) :: .emitted (.text chunk) :: shown) r := by
  have htexts : texts (.text chunk :: events) = chunk :: texts events := rfl
  cases h with
  | ended hshown haccumulated husage =>
    refine .ended (by rw [hshown]; rfl) ?_ husage
    rw [haccumulated, htexts, List.append_assoc]
    rfl
  | raised read hpre hshown hyielded =>
    refine .raised (.text chunk :: read) (List.cons_prefix_cons.mpr ⟨rfl, hpre⟩)
      (by rw [hshown]; rfl) ?_
    simpa [texts, StreamEvent.text?] using hyielded

variable {env : Surroundings}

theorem returns_anext (client : Client) :
    Returns env (Library.Action.attempt (call (.anext client))) fun shown r =>
      shown = [.pulled client r] :=
  Returns.attempt ((wp_call _ _).mpr ⟨trivial, fun _ _ => rfl⟩)

/-- The consumer takes what is yielded and asks for more. -/
theorem returns_emit (event : Yielded) :
    Returns env (Library.Action.attempt (call (.emit event))) fun shown r =>
      shown = [.emitted event] ∧ r = .ok () :=
  Returns.attempt ((wp_call _ _).mpr ⟨trivial, fun _ ⟨_, hr⟩ => ⟨rfl, hr⟩⟩)

theorem consume_consumes (client : Client) (events : List StreamEvent) (s : Consumed) :
    Returns env (consume client events s) (Consumes client events s) := by
  induction events generalizing s with
  | nil =>
    apply (returns_anext client).bind
    intro shown r hshown
    subst hshown
    cases r with
    | ok u => exact Returns.pure (.ended rfl (by simp [texts]) (by simp [lastUsage]))
    | error e => exact Returns.pure (.raised [] List.nil_prefix rfl (by simp [texts]))
  | cons event events ih =>
    apply (returns_anext client).bind
    intro shown r hshown
    subst hshown
    cases r with
    | error e => exact Returns.pure (.raised [] List.nil_prefix rfl (by simp [texts]))
    | ok u =>
      cases event with
      | usage u => exact (ih _).mono fun _ _ h => h.usage
      | text chunk =>
        apply (returns_emit (.text chunk)).bind
        intro shown r h
        obtain ⟨rfl, rfl⟩ := h
        exact (ih _).mono fun _ _ h => h.text

/-! ## One candidate -/

/-- What came of an admitted candidate: its stream could not be opened, broke after some
events, or ended and its content was written to these tiers. -/
inductive StreamVerdict where
  | unopened (e : Raised)
  | broken (events read : List StreamEvent) (e : Raised)
  | finished (events : List StreamEvent) (tiers : List CacheTier)

/-- A failure is recorded unless it is a cancellation. -/
def failureRecord (backend : Backend) (e : Raised) : List Observation :=
  if e.isException then [.recorded backend.id false] else []

/-- The protocol of `handle_stream`: a stream that breaks after its first text ends the
walk, and so does a cancellation. -/
def streamProtocol (bypassCache : Bool) : Protocol StreamVerdict Unit where
  after backend client
    | .unopened e => .opened client backend.model (.error e) :: failureRecord backend e
    | .broken events read e => .opened client backend.model (.ok events) ::
        (reading client read ++ .pulled client (.error e) :: failureRecord backend e)
    | .finished events tiers => .opened client backend.model (.ok events) ::
        (reading client events ++ .pulled client (.ok ()) :: .recorded backend.id true ::
          (tiers.map (.stored · (String.join (texts events))) ++
            [.emitted (.result (streamResult backend events))]))
  ends _
    | .unopened e => if e.isException then none else some (.error e)
    | .broken _ read e =>
        if e.isException then
          if texts read = [] then none else some (.error (.allBackendsUnavailable (some e)))
        else some (.error e)
    | .finished _ _ => some (.ok ())
  next
    | .unopened e => some e
    | .broken _ _ e => some e
    | .finished .. => none
  valid
    | .unopened _ => True
    | .broken events read _ => read <+: events
    | .finished _ tiers => Written bypassCache tiers

section Body
variable (gw : RequestOrchestrator) (req : ChatRequest)

/-- The `try` block opens one stream and reads it. -/
theorem returns_streamFrom (backend : Backend) (client : Client) :
    Returns env (streamFrom req backend client) fun shown r =>
      (∃ e, shown = [.opened client backend.model (.error e)] ∧ r = ({}, .error e)) ∨
      ∃ events shown', shown = .opened client backend.model (.ok events) :: shown' ∧
        Consumes client events {} shown' r := by
  unfold streamFrom
  refine Returns.bind (R := fun shown r => shown = [] ∧ r = .ok ()) ?_ ?_
  · exact Returns.attempt ((wp_call _ _).mpr ⟨trivial, fun _ ⟨_, hr⟩ => ⟨rfl, hr⟩⟩)
  rintro _ _ ⟨rfl, rfl⟩
  refine Returns.bind (R := fun shown r =>
      (∃ e, shown = [.opened client backend.model (.error e)] ∧ r = ({}, .error e)) ∨
      ∃ events shown', shown = .opened client backend.model (.ok events) :: shown' ∧
        Consumes client events {} shown' r) ?_ ?_
  · refine Returns.bind (R := fun shown r => shown = [.opened client backend.model r]) ?_ ?_
    · exact Returns.attempt ((wp_call _ _).mpr ⟨trivial, fun _ _ => rfl⟩)
    · rintro _ r rfl
      cases r with
      | error e => exact Returns.pure (.inl ⟨e, rfl, rfl⟩)
      | ok events =>
        exact (consume_consumes client events {}).mono fun shown r h => .inr ⟨events, shown, rfl, h⟩
  · rintro shown ⟨s, ended⟩ h
    refine Returns.bind (R := fun shown r => shown = [] ∧ r = .ok ()) ?_ ?_
    · exact Returns.attempt ((wp_call _ _).mpr ⟨trivial, fun _ ⟨_, hr⟩ => ⟨rfl, hr⟩⟩)
    · rintro _ _ ⟨rfl, rfl⟩
      exact Returns.pure (by simpa using h)

theorem streamWith_follows (start : Time) (reservation : Resilience.RateLimit.ReservationId) :
    Follows (streamProtocol req.bypassCache) env (streamWith gw req start reservation) := by
  intro backend client
  unfold streamWith
  refine (returns_streamFrom req backend client).sees_bind ?_
  rintro _ r (⟨e, rfl, rfl⟩ | ⟨events, shown', rfl, hconsumes⟩)
  · dsimp only
    split
    · rename_i hexception
      apply (returns_record backend.id false).sees_bind
      intro shown u hshown
      subst hshown
      exact ⟨.unopened e, trivial, by simp [streamProtocol, failureRecord, hexception],
        by simp [streamProtocol, hexception], rfl⟩
    · rename_i hcancelled
      exact Sees.throw ⟨.unopened e, trivial, by simp [streamProtocol, failureRecord, hcancelled],
        by simp [streamProtocol, hcancelled]⟩
  · cases hconsumes with
    | @raised s e read hpre hshown hyielded =>
      subst hshown
      dsimp only
      split
      · rename_i hexception
        apply (returns_record backend.id false).sees_bind
        intro shown u hshown
        subst hshown
        split
        · rename_i hany
          have hne : texts read ≠ [] := by simpa [hyielded] using hany
          exact Sees.throw ⟨.broken events read e, hpre,
            by simp [streamProtocol, failureRecord, hexception],
            by simp [streamProtocol, hexception, hne]⟩
        · rename_i hany
          have hnil : texts read = [] := by simpa [hyielded] using hany
          exact ⟨.broken events read e, hpre,
            by simp [streamProtocol, failureRecord, hexception],
            by simp [streamProtocol, hexception, hnil], rfl⟩
      · rename_i hcancelled
        exact Sees.throw ⟨.broken events read e, hpre,
          by simp [streamProtocol, failureRecord, hcancelled],
          by simp [streamProtocol, hcancelled]⟩
    | @ended s hshown htexts husage =>
      subst hshown
      have haccumulated : s.accumulated = texts events := by simpa using htexts
      have hlast : s.usage = lastUsage events := by simpa using husage
      dsimp only
      rw [haccumulated, hlast]
      apply (returns_settle gw req start reservation backend _ _ _ _).sees_bind
      intro shown latency h
      obtain ⟨tiers, hwritten, rfl⟩ := h
      refine (quiet_incr gw _ _).sees_bind fun _ => ?_
      refine Returns.sees_bind (R := fun shown _ =>
        shown = [.emitted (.result (streamResult backend events))])
        (Returns.call fun reply ⟨a, ha⟩ => ⟨a, ha, rfl⟩) ?_
      rintro _ _ rfl
      exact ⟨.finished events tiers, hwritten, by simp [streamProtocol], rfl⟩

end Body

/-! ## The whole walk -/

/-- What is yielded to the consumer. -/
def yielded (shown : List Observation) : List Yielded :=
  shown.filterMap fun
    | .emitted event => some event
    | _ => none

/-- What is written to the cache. -/
def written (shown : List Observation) : List (CacheTier × String) :=
  shown.filterMap fun
    | .stored tier content => some (tier, content)
    | _ => none

def Observation.isCall : Observation → Bool
  | .called .. => true
  | .opened .. => true
  | _ => false

/-- A stream is read to its end. -/
def ReadToEnd (client : Client) (events : List StreamEvent) (late : List Observation) : Prop :=
  reading client events ++ [.pulled client (.ok ())] <+: late

/-- After these events, the first ones of a stream, a read of it raises. -/
def BreaksOff (client : Client) (events read : List StreamEvent) (e : Raised)
    (late : List Observation) : Prop :=
  read <+: events ∧ reading client read ++ [.pulled client (.error e)] <+: late

/-- Neither text nor a result has been yielded, nothing has been written, and every stream
that has been opened has raised. -/
structure Textless (shown : List Observation) : Prop where
  yielded : yielded shown = []
  written : written shown = []
  breaks_off : ∀ early client model events late,
    shown = early ++ .opened client model (.ok events) :: late →
    ∃ read e, BreaksOff client events read e late

/-- What a stream that raises after its first text turns into. -/
def stoppedBy (e : Raised) : Raised := if e.isException then .allBackendsUnavailable (some e) else e

/-- What is seen after the stream has been opened that all text comes from. If the stream
is read to its end then all of its text, the result and the write-back; else the text up to
the read that raised, and this exception. -/
inductive Delivery (bypassCache : Bool) (backend : Backend) (client : Client)
    (events : List StreamEvent) (late : List Observation) : Except Raised Unit → Prop
  | whole {tiers : List CacheTier} (hread : ReadToEnd client events late)
      (htiers : Written bypassCache tiers)
      (hyielded : yielded late =
        (texts events).map .text ++ [.result (streamResult backend events)])
      (hwritten : written late = tiers.map fun tier => (tier, String.join (texts events))) :
      Delivery bypassCache backend client events late (.ok ())
  | broken {read : List StreamEvent} {e : Raised} (hbreaks : BreaksOff client events read e late)
      (hne : texts read ≠ []) (hyielded : yielded late = (texts read).map .text)
      (hwritten : written late = []) :
      Delivery bypassCache backend client events late (.error (stoppedBy e))

/-- A walk over streams ends in an exception before any text, or delivers one stream, and
after that stream has been opened calls no other backend. -/
inductive Integrity (bypassCache : Bool) (candidates : List (Backend × Client))
    (shown : List Observation) : Except Raised Unit → Prop
  | textless {e : Raised} (h : Textless shown) : Integrity bypassCache candidates shown (.error e)
  | delivered {r : Except Raised Unit} {early late : List Observation} {backend : Backend}
      {client : Client} {events : List StreamEvent}
      (hshown : shown = early ++ .opened client backend.model (.ok events) :: late)
      (hmem : (backend, client) ∈ candidates) (hearly : Textless early)
      (hlast : ∀ o ∈ late, o.isCall = false)
      (hlate : Delivery bypassCache backend client events late r) :
      Integrity bypassCache candidates shown r

section Shown
variable {bypassCache : Bool} {candidates : List (Backend × Client)}
  {shown shown' : List Observation}

@[simp] theorem yielded_append : yielded (shown ++ shown') = yielded shown ++ yielded shown' :=
  List.filterMap_append

@[simp] theorem written_append : written (shown ++ shown') = written shown ++ written shown' :=
  List.filterMap_append

@[simp] theorem yielded_pulled (client : Client) (reply : Except Raised Unit) :
    yielded (.pulled client reply :: shown) = yielded shown := rfl

@[simp] theorem written_pulled (client : Client) (reply : Except Raised Unit) :
    written (.pulled client reply :: shown) = written shown := rfl

theorem reading_cons (client : Client) (event : StreamEvent) (events : List StreamEvent) :
    reading client (event :: events) = reading client [event] ++ reading client events := by
  cases event <;> rfl

@[simp] theorem yielded_reading (client : Client) (events : List StreamEvent) :
    yielded (reading client events) = (texts events).map .text := by
  induction events with
  | nil => rfl
  | cons event events ih =>
    rw [reading_cons, yielded_append, ih]
    cases event <;> rfl

@[simp] theorem written_reading (client : Client) (events : List StreamEvent) :
    written (reading client events) = [] := by
  induction events with
  | nil => rfl
  | cons event events ih =>
    rw [reading_cons, written_append, ih]
    cases event <;> rfl

@[simp] theorem yielded_stored (tiers : List CacheTier) (content : String) :
    yielded (tiers.map (.stored · content)) = [] := by
  simp [yielded]

@[simp] theorem written_stored (tiers : List CacheTier) (content : String) :
    written (tiers.map (.stored · content)) = tiers.map fun tier => (tier, content) := by
  simp [written, List.filterMap_map]

@[simp] theorem yielded_recorded (backendId : Uuid) (ok : Bool) :
    yielded (.recorded backendId ok :: shown) = yielded shown := rfl

@[simp] theorem written_recorded (backendId : Uuid) (ok : Bool) :
    written (.recorded backendId ok :: shown) = written shown := rfl

@[simp] theorem yielded_emitted (event : Yielded) : yielded [.emitted event] = [event] := rfl

@[simp] theorem written_emitted (event : Yielded) : written [.emitted event] = [] := rfl

theorem not_isCall_reading (client : Client) (events : List StreamEvent) :
    ∀ o ∈ reading client events, o.isCall = false := by
  refine List.forall_mem_flatMap.mpr fun event _ => ?_
  cases event <;> simp [Observation.isCall]

theorem not_isCall_stored (tiers : List CacheTier) (content : String) :
    ∀ o ∈ tiers.map (Observation.stored · content), o.isCall = false := by
  simp [Observation.isCall]

theorem not_isCall_failureRecord (backend : Backend) (e : Raised) :
    ∀ o ∈ failureRecord backend e, o.isCall = false := by
  unfold failureRecord
  split <;> simp [Observation.isCall]

theorem BreaksOff.append {client : Client} {events read : List StreamEvent} {e : Raised}
    (h : BreaksOff client events read e shown) :
    BreaksOff client events read e (shown ++ shown') :=
  ⟨h.1, h.2.trans (List.prefix_append _ _)⟩

/-- Without calls there is no stream that could have been read to its end. -/
theorem Textless.of_not_isCall (hyielded : Orchestrator.yielded shown = [])
    (hwritten : Orchestrator.written shown = []) (hcalls : ∀ o ∈ shown, o.isCall = false) :
    Textless shown := by
  refine ⟨hyielded, hwritten, fun early client model events late hshown => ?_⟩
  have hopened := hcalls (.opened client model (.ok events)) (by simp [hshown])
  exact absurd hopened (by simp [Observation.isCall])

theorem Textless.append (h : Textless shown) (h' : Textless shown') :
    Textless (shown ++ shown') := by
  refine ⟨by simp [h.yielded, h'.yielded], by simp [h.written, h'.written], ?_⟩
  intro early client model events late heq
  obtain ⟨mid, hshown, rfl⟩ | ⟨mid, -, hshown'⟩ := append_eq_append_cons heq
  · obtain ⟨read, e, hbreaks⟩ := h.breaks_off early client model events mid hshown
    exact ⟨read, e, hbreaks.append⟩
  · exact h'.breaks_off mid client model events late hshown'

theorem textless_failureRecord (backend : Backend) (e : Raised) :
    Textless (failureRecord backend e) := by
  refine .of_not_isCall ?_ ?_ (not_isCall_failureRecord backend e) <;>
    (unfold failureRecord; split <;> rfl)

/-- A stream that could not be opened. -/
theorem textless_unopened (client : Client) (backend : Backend) (e : Raised) :
    Textless (.opened client backend.model (.error e) :: failureRecord backend e) := by
  suffices hopened : Textless [.opened client backend.model (.error e)] from
    hopened.append (textless_failureRecord backend e)
  refine ⟨rfl, rfl, fun early client model events late heq => ?_⟩
  obtain ⟨-, hopened⟩ | ⟨mid, -, hmid⟩ := List.cons_eq_append_iff.mp heq
  · exact nomatch (List.cons.inj hopened).1
  · simp at hmid

/-- A stream that has raised before its first text. -/
theorem textless_broken (client : Client) (backend : Backend) {events read : List StreamEvent}
    (e : Raised) (hpre : read <+: events) (htexts : texts read = []) :
    Textless (.opened client backend.model (.ok events) ::
      (reading client read ++ .pulled client (.error e) :: failureRecord backend e)) := by
  have hfailure := textless_failureRecord backend e
  refine ⟨?_, ?_, ?_⟩
  · change yielded (reading client read ++ .pulled client (.error e) :: failureRecord backend e) = _
    simp [htexts, hfailure.yielded]
  · change written (reading client read ++ .pulled client (.error e) :: failureRecord backend e) = _
    simp [hfailure.written]
  · intro early client' model events' late heq
    obtain ⟨-, hopened⟩ | ⟨mid, -, hmid⟩ := List.cons_eq_append_iff.mp heq
    · obtain ⟨hsame, rfl⟩ := List.cons.inj hopened
      obtain ⟨rfl, -, hevents⟩ := Observation.opened.inj hsame
      obtain rfl := Except.ok.inj hevents
      exact ⟨read, e, hpre, ⟨failureRecord backend e, by simp⟩⟩
    · have hcalls : ∀ o ∈ reading client read ++ .pulled client (.error e) ::
          failureRecord backend e, o.isCall = false :=
        List.forall_mem_append.mpr ⟨not_isCall_reading client read,
          List.forall_mem_cons.mpr ⟨rfl, not_isCall_failureRecord backend e⟩⟩
      exact absurd (hcalls (.opened client' model (.ok events')) (by simp [hmid]))
        (by simp [Observation.isCall])

/-- What happens before without text does not matter. -/
theorem Integrity.skip {r : Except Raised Unit} (h : Textless shown)
    (hrest : Integrity bypassCache candidates shown' r) :
    Integrity bypassCache candidates (shown ++ shown') r := by
  cases hrest with
  | textless h' => exact .textless (h.append h')
  | @delivered _ early late backend client events hshown hmem hearly hlast hlate =>
    have hsplit : shown ++ shown' =
        (shown ++ early) ++ .opened client backend.model (.ok events) :: late := by
      rw [hshown, List.append_assoc]
    exact .delivered hsplit hmem (h.append hearly) hlast hlate

variable {backend : Backend} {client : Client} {verdict : StreamVerdict}

/-- A candidate after which the walk goes on has shown no text. -/
theorem textless_of_goes_on (hvalid : (streamProtocol bypassCache).valid verdict)
    (hends : (streamProtocol bypassCache).ends backend verdict = none) :
    Textless ((streamProtocol bypassCache).after backend client verdict) := by
  cases verdict with
  | unopened e => exact textless_unopened client backend e
  | broken events read e =>
    have hnil : texts read = [] := by
      by_contra hne
      simp [streamProtocol, hne, ite_eq_iff] at hends
    exact textless_broken client backend e hvalid hnil
  | finished events tiers => simp [streamProtocol] at hends

/-- A candidate that ends the walk keeps its integrity. -/
theorem integrity_of_ends {r : Except Raised Unit} (hmem : (backend, client) ∈ candidates)
    (hvalid : (streamProtocol bypassCache).valid verdict)
    (hends : (streamProtocol bypassCache).ends backend verdict = some r) :
    Integrity bypassCache candidates ((streamProtocol bypassCache).after backend client verdict)
      r := by
  have hearly : Textless [] := .of_not_isCall rfl rfl nofun
  cases verdict with
  | unopened e =>
    obtain ⟨-, rfl⟩ : e.isException = false ∧ Except.error e = r := by
      simpa [streamProtocol, ite_eq_iff] using hends
    exact .textless (textless_unopened client backend e)
  | finished events tiers =>
    obtain rfl : Except.ok () = r := Option.some.inj hends
    refine .delivered (List.nil_append _).symm hmem hearly ?_ (.whole ?_ hvalid ?_ ?_)
    · refine List.forall_mem_append.mpr ⟨not_isCall_reading client events, ?_⟩
      refine List.forall_mem_cons.mpr ⟨rfl, List.forall_mem_cons.mpr ⟨rfl, ?_⟩⟩
      refine List.forall_mem_append.mpr ⟨not_isCall_stored tiers _, ?_⟩
      exact List.forall_mem_singleton.mpr rfl
    · exact ⟨_, List.append_assoc ..⟩
    · simp
    · simp
  | broken events read e =>
    have hfailure := textless_failureRecord backend e
    by_cases hnil : texts read = []
    · obtain ⟨e', rfl⟩ : ∃ e', r = .error e' := by
        simp only [streamProtocol, hnil, if_true] at hends
        split at hends
        · exact nomatch hends
        · exact ⟨e, (Option.some.inj hends).symm⟩
      exact .textless (textless_broken client backend e hvalid hnil)
    · obtain rfl : Except.error (stoppedBy e) = r := by
        simp only [streamProtocol, hnil, if_false] at hends
        unfold stoppedBy
        split at hends
        · rename_i hexception
          rw [if_pos hexception]
          exact Option.some.inj hends
        · rename_i hcancelled
          rw [if_neg hcancelled]
          exact Option.some.inj hends
      refine .delivered (List.nil_append _).symm hmem hearly ?_ (.broken ⟨hvalid, ?_⟩ hnil ?_ ?_)
      · refine List.forall_mem_append.mpr ⟨not_isCall_reading client read, ?_⟩
        exact List.forall_mem_cons.mpr ⟨rfl, not_isCall_failureRecord backend e⟩
      · exact ⟨failureRecord backend e, by simp⟩
      · simp [hfailure.yielded]
      · simp [hfailure.written]

end Shown

section Walk
variable (gw : RequestOrchestrator) (req : ChatRequest) {candidates : List (Backend × Client)}

/-- The loop keeps its integrity, whatever the policy answers. -/
theorem walk_integrity {stopped : Raised} {body : Backend → Client → Action (Pass Unit)}
    {exhausted : Option Raised → Action Unit}
    (hbody : Follows (streamProtocol req.bypassCache) env body)
    (hexhausted : ∀ err, Sees env (exhausted err) fun shown r =>
      shown = [] ∧ r = .error (.allBackendsUnavailable err)) (err : Option Raised) :
    Sees env (walk req stopped body exhausted candidates err)
      (Integrity req.bypassCache candidates) := by
  suffices h : WalkRule (ordinary env) req stopped body exhausted
      (fun remaining _ => remaining ⊆ candidates)
      (fun _ _ trace r => Integrity req.bypassCache candidates (trace.filterMap seen) r) from
    h.wp_walk (List.Subset.refl candidates)
  have hrest : ∀ {rem : List (Backend × Client)} (chosen : Uuid), rem ⊆ candidates →
      without chosen rem ⊆ candidates := fun _ hrem _ hpair => hrem (List.mem_filter.mp hpair).1
  refine ⟨fun _ _ => trivial, ?_, ?_, fun _ _ => trivial, ?_, ?_, ?_, ?_⟩
  · intro rem err e _ _ _
    exact .textless (.of_not_isCall rfl rfl (by simp [seen, Observation.isCall]))
  · intro rem err chosen _ _ _ _
    exact .textless (.of_not_isCall rfl rfl (by simp [seen, Observation.isCall]))
  · intro rem err chosen backend client e _ _ _
    exact .textless (.of_not_isCall rfl rfl (by simp [seen, Observation.isCall]))
  · intro rem err chosen backend client hrem _ _ _
    have hasked : Textless [.selected chosen, .allowed backend.id false] :=
      .of_not_isCall rfl rfl (by simp [Observation.isCall])
    exact ⟨hrest _ hrem, fun trace r h => h.skip hasked⟩
  · intro rem err chosen backend client hrem _ hpair _
    have hmem : (backend, client) ∈ candidates := hrem (pairOf_mem hpair).1
    have hasked : Textless [.selected chosen, .allowed backend.id true] :=
      .of_not_isCall rfl rfl (by simp [Observation.isCall])
    refine wp_mono (hbody backend client) ?_
    intro trace r h
    obtain ⟨verdict, hvalid, hafter, hr⟩ := h
    have hended : ∀ {result : Except Raised Unit},
        (streamProtocol req.bypassCache).ends backend verdict = some result →
        Integrity req.bypassCache candidates (.selected chosen :: .allowed backend.id true ::
          trace.filterMap seen) result := fun {result} hends => by
      rw [hafter]
      exact (integrity_of_ends hmem hvalid hends).skip hasked
    cases r with
    | error e => exact hended hr
    | ok pass =>
      cases pass with
      | done a => exact hended hr
      | next err' =>
        obtain ⟨hends, -⟩ := hr
        have htextless : Textless (trace.filterMap seen) :=
          hafter ▸ textless_of_goes_on hvalid hends
        refine ⟨hrest _ hrem, fun trace' r' h => ?_⟩
        have h' := (h.skip htextless).skip hasked
        simpa [seen, List.filterMap_append] using h'
  · intro err _
    refine wp_mono (hexhausted err) ?_
    rintro trace r ⟨hshown, rfl⟩
    exact .textless (hshown ▸ .of_not_isCall rfl rfl (List.forall_mem_nil _))

/-- An admitted request that misses the cache keeps its integrity. -/
theorem handleStream_integrity (env : Surroundings) :
    Sees env (handleStream gw req) (Integrity req.bypassCache env.candidates) := by
  unfold handleStream
  refine quiet_perfCounter.sees_bind fun start => ?_
  apply (returns_reserve _ _ _ _).sees_bind
  intro shown reserved h
  obtain ⟨rfl, reservation, rfl⟩ := h
  apply (returns_lookup gw req).sees_bind
  intro shown hit h
  obtain ⟨rfl, rfl⟩ := h
  apply (returns_candidates req.model).sees_bind
  intro shown offered h
  obtain ⟨rfl, rfl⟩ := h
  split
  · exact Sees.throw (.textless (.of_not_isCall rfl rfl (List.forall_mem_nil _)))
  · refine walk_integrity req (streamWith_follows gw req start reservation) (fun err => ?_) none
    exact (quiet_logUnavailable req start).sees_bind fun _ => Sees.throw ⟨rfl, rfl⟩

end Walk

/-- Nothing is known about the policy and about what streams raise. -/
def Surroundings.unconstrained (candidates : List (Backend × Client)) : Surroundings where
  candidates
  choice _ _ := True
  failure _ := True

/-- A stream is delivered whole, and nothing else is. -/
def DeliveredWhole (bypassCache : Bool) (candidates : List (Backend × Client)) (client : Client)
    (model : String) (events : List StreamEvent) (shown : List Observation)
    (result : Except Raised Unit) : Prop :=
  result = .ok () ∧ ∃ backend tiers, (backend, client) ∈ candidates ∧ backend.model = model ∧
    Written bypassCache tiers ∧
    yielded shown = (texts events).map .text ++ [.result (streamResult backend events)] ∧
    written shown = tiers.map fun tier => (tier, String.join (texts events))

/-- A stream of which no read raises is the one that is delivered. -/
theorem Integrity.deliveredWhole {bypassCache : Bool} {candidates : List (Backend × Client)}
    {shown early late : List Observation} {r : Except Raised Unit} {client : Client}
    {model : String} {events : List StreamEvent} (h : Integrity bypassCache candidates shown r)
    (hshown : shown = early ++ .opened client model (.ok events) :: late)
    (hread : ∀ read e, ¬ BreaksOff client events read e late) :
    DeliveredWhole bypassCache candidates client model events shown r := by
  cases h with
  | textless h =>
    obtain ⟨read, e, hbreaks⟩ := h.breaks_off _ _ _ _ _ hshown
    exact absurd hbreaks (hread read e)
  | @delivered _ early' late' backend client' events' hshown' hmem hearly hlast hlate =>
    obtain ⟨mid, hsplit, rfl⟩ | ⟨rfl, hopened, rfl⟩ | ⟨mid, -, rfl⟩ :=
      append_cons_eq_append_cons (hshown.symm.trans hshown')
    · obtain ⟨read, e, hbreaks⟩ := hearly.breaks_off _ _ _ _ _ hsplit
      exact absurd hbreaks.append (hread read e)
    · obtain ⟨rfl, rfl, hevents⟩ := Observation.opened.inj hopened
      obtain rfl := Except.ok.inj hevents
      cases hlate with
      | broken hbreaks => exact absurd hbreaks (hread _ _)
      | @whole tiers _ htiers hyielded hwritten =>
        refine ⟨rfl, backend, tiers, hmem, rfl, htiers, ?_, ?_⟩
        · rw [hshown', yielded_append, hearly.yielded]
          exact hyielded
        · rw [hshown', written_append, hearly.written]
          exact hwritten
    · have hcall := hlast (.opened client model (.ok events)) (by simp)
      exact absurd hcall (by simp [Observation.isCall])

/-- Stream integrity. Whatever the candidates, the policy, the breakers and the streams do,
a request that misses the cache ends in an exception before any text, result or
write-back, and then every stream it has opened has raised; or all its text comes from one
stream, in order, with no call of a backend afterwards. A stream of which no read raises is
delivered whole: all of its text is followed by one result, with the last usage of the
stream, and the same content is written back. One that raises after its first text delivers
the text up to there and neither of the two. -/
theorem stream_integrity (gw : RequestOrchestrator) (req : ChatRequest)
    (candidates : List (Backend × Client)) (answer : List Event → (op : Op) → Reply op)
    (hanswer : ∀ past op, Ordinary (.unconstrained candidates) op (answer past op)) :
    let run := Program.run answer [] (handleStream gw req).run
    let shown := run.1.filterMap seen
    Integrity req.bypassCache candidates shown run.2 ∧
    ∀ early client model events late, shown = early ++ .opened client model (.ok events) :: late →
      (∀ read e, ¬ BreaksOff client events read e late) →
      DeliveredWhole req.bypassCache candidates client model events shown run.2 :=
  have hrun := Program.wp_run (handleStream_integrity gw req (.unconstrained candidates)) hanswer []
  ⟨hrun, fun _ _ _ _ _ => hrun.deliveredWhole⟩

/-- The first stream raises before its first event, the second one is read to its end. -/
theorem stream_integrity_healthy :
    let run := Program.run (fun _ => failoverAnswer) []
      (handleStream ⟨false, fun _ => "digest"⟩ hiRequest).run
    Integrity false brokenAndHealthy (run.1.filterMap seen) run.2 ∧
    DeliveredWhole false brokenAndHealthy ⟨1⟩ "m"
      [.usage ⟨1, 2, some "length"⟩, .text "", .text "ok"] (run.1.filterMap seen) run.2 := by
  intro run
  obtain ⟨hintegrity, hwhole⟩ := stream_integrity ⟨false, fun _ => "digest"⟩ hiRequest
    brokenAndHealthy (fun _ => failoverAnswer) fun _ =>
      ordinary_failoverAnswer rfl (fun _ _ => trivial) trivial
  have hshown : run.1.filterMap seen = (run.1.filterMap seen).take 7 ++
      .opened ⟨1⟩ "m" (.ok [.usage ⟨1, 2, some "length"⟩, .text "", .text "ok"]) ::
        ([.pulled ⟨1⟩ (.ok ()), .pulled ⟨1⟩ (.ok ()), .emitted (.text ""), .pulled ⟨1⟩ (.ok ()),
          .emitted (.text "ok"), .pulled ⟨1⟩ (.ok ()), .recorded 1 true, .stored .l1 "ok",
          .emitted (.result ⟨"ok", "m", 1, 2, some "length", none, some "healthy"⟩)]) := by
    dsimp only [run]
    unfold handleStream
    rw [walk_evaluates]
    rfl
  refine ⟨hintegrity, hwhole _ _ _ _ _ hshown fun read e hbreaks => ?_⟩
  have hraised := hbreaks.2.subset (a := .pulled ⟨1⟩ (.error e)) (by simp)
  simp at hraised

end InferenceGateway.Orchestrator
