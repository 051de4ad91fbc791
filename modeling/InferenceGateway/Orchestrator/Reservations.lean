import InferenceGateway.Library.Monitor
import InferenceGateway.Orchestrator.Metrics

/-!
# What becomes of a reservation

A request that is admitted is granted a reservation, which it reconciles with what the answer has
cost before it writes a row of `request_log` with these tokens. So no reservation is reconciled
twice, or by another request or under another key, and the log never says more than has been
charged, however requests are interleaved and whatever is replied.
-/
namespace InferenceGateway.Orchestrator
open Library Library.Action Resilience.RateLimit
open scoped List

variable {α β : Type}

/-! ## The entries -/

/-- The reservation that is granted, with its key. -/
def granted : Event → List (Uuid × ReservationId)
  | ⟨.reserve apiKeyId .., .ok (some id)⟩ => [(apiKeyId, id)]
  | _ => []

/-- The reservation that is reconciled, whether the reply is lost or not. -/
def reconciled : Event → List (Uuid × ReservationId)
  | ⟨.reconcile apiKeyId id _, _⟩ => [(apiKeyId, id)]
  | _ => []

/-- The tokens that are charged to a key. -/
def charges : Event → List (Uuid × Int)
  | ⟨.reconcile apiKeyId _ tokens, .ok _⟩ => [(apiKeyId, tokens)]
  | _ => []

/-- The tokens that the row of an answered request says its key has used. -/
def loggedTokens : Event → List (Uuid × Int)
  | ⟨.insertLog row, .ok _⟩ =>
    if row.status = 200 then [(row.apiKeyId, row.tokensIn + row.tokensOut)] else []
  | _ => []

/-! ## The stages of a request -/

inductive Stage where
  | unadmitted
  | admitted (id : ReservationId)
  /-- The reply to the reconciliation was lost. -/
  | unanswered (id : ReservationId)
  | charged (id : ReservationId) (tokens : Int)
  /-- The clock or the insert of the row has raised. -/
  | unlogged (id : ReservationId) (tokens : Int)
  | logged (id : ReservationId) (tokens : Int)

/-- What a request with this key may do next to its reservation. -/
def follow (key : Uuid) : Monitor Stage Event
  | .unadmitted, ⟨.reserve apiKeyId .., .ok (some id)⟩ =>
    if apiKeyId = key then some (.admitted id) else none
  | .admitted id, ⟨.reconcile apiKeyId id' tokens, r⟩ =>
    if apiKeyId = key ∧ id' = id then
      some (if r.isOk then .charged id tokens else .unanswered id)
    else none
  | .charged id tokens, ⟨.insertLog row, .ok _⟩ =>
    if row.status = 200 ∧ row.apiKeyId = key ∧ row.tokensIn + row.tokensOut = tokens then
      some (.logged id tokens)
    else none
  | .charged id tokens, ⟨.insertLog _, .error _⟩ => some (.unlogged id tokens)
  | .charged id tokens, ⟨.perfCounter, .error _⟩ => some (.unlogged id tokens)
  | s, ev =>
    if (granted ev).isEmpty && (reconciled ev).isEmpty && (loggedTokens ev).isEmpty then some s
    else none

namespace Stage

def granted (key : Uuid) : Stage → List (Uuid × ReservationId)
  | .unadmitted => []
  | .admitted id | .unanswered id | .charged id _ | .unlogged id _ | .logged id _ => [(key, id)]

def reconciled (key : Uuid) : Stage → List (Uuid × ReservationId)
  | .unadmitted | .admitted _ => []
  | .unanswered id | .charged id _ | .unlogged id _ | .logged id _ => [(key, id)]

def charges (key : Uuid) : Stage → List (Uuid × Int)
  | .unadmitted | .admitted _ | .unanswered _ => []
  | .charged _ tokens | .unlogged _ tokens | .logged _ tokens => [(key, tokens)]

def loggedTokens (key : Uuid) : Stage → List (Uuid × Int)
  | .logged _ tokens => [(key, tokens)]
  | _ => []

/-- Charged and not logged yet. -/
def pending : Stage → Bool
  | .charged .. => true
  | _ => false

/-- Charged and never to be logged. -/
def lost : Stage → Bool
  | .unlogged .. => true
  | _ => false

end Stage

/-- Not about reservations. -/
def Op.neutral : Op → Bool
  | .reserve .. | .reconcile .. | .insertLog _ => false
  | _ => true

/-- What stands between a reconciliation and its row. -/
def Op.precedesRow : Op → Bool
  | .perfCounter | .insertLog _ => true
  | _ => false

section Steps
variable {key : Uuid} {s s' : Stage} {ev : Event}

theorem charges_of_reconciled (h : reconciled ev = []) : charges ev = [] := by
  obtain ⟨op, r⟩ := ev
  cases op <;> first | rfl | exact absurd h (by simp [reconciled])

/-- An event adds its entries to those of the stage. -/
theorem follow_entries (h : follow key s ev = some s') :
    s'.granted key = s.granted key ++ granted ev ∧
      s'.reconciled key = s.reconciled key ++ reconciled ev ∧
      s'.charges key = s.charges key ++ charges ev ∧
      s'.loggedTokens key = s.loggedTokens key ++ loggedTokens ev := by
  unfold follow at h
  split at h
  · obtain ⟨rfl, hs'⟩ := Option.ite_none_right_eq_some.mp h
    obtain rfl := Option.some.inj hs'
    exact ⟨rfl, rfl, rfl, rfl⟩
  · obtain ⟨⟨rfl, rfl⟩, hs'⟩ := Option.ite_none_right_eq_some.mp h
    rename_i r
    obtain rfl := Option.some.inj hs'
    cases r <;> exact ⟨rfl, rfl, rfl, rfl⟩
  · obtain ⟨⟨hstatus, rfl, rfl⟩, hs'⟩ := Option.ite_none_right_eq_some.mp h
    obtain rfl := Option.some.inj hs'
    exact ⟨rfl, rfl, rfl, by simp [loggedTokens, Stage.loggedTokens, hstatus]⟩
  · obtain rfl := Option.some.inj h
    exact ⟨rfl, rfl, rfl, rfl⟩
  · obtain rfl := Option.some.inj h
    exact ⟨rfl, rfl, rfl, rfl⟩
  · obtain ⟨hnone, hs'⟩ := Option.ite_none_right_eq_some.mp h
    obtain rfl := Option.some.inj hs'
    simp only [Bool.and_eq_true, List.isEmpty_iff] at hnone
    obtain ⟨⟨hgranted, hreconciled⟩, hlogged⟩ := hnone
    simp [hgranted, hreconciled, hlogged, charges_of_reconciled hreconciled]

/-- Only the clock and the insert of the row keep what is charged from being logged. -/
theorem lost_cause (h : follow key s ev = some s') (hlost : s'.lost = true) :
    s.lost = true ∨ ev.1.precedesRow = true ∧ ev.2.isOk = false := by
  unfold follow at h
  split at h
  · obtain ⟨-, hs'⟩ := Option.ite_none_right_eq_some.mp h
    obtain rfl := Option.some.inj hs'
    exact absurd hlost Bool.false_ne_true
  · obtain ⟨-, hs'⟩ := Option.ite_none_right_eq_some.mp h
    rename_i r
    obtain rfl := Option.some.inj hs'
    cases r <;> exact absurd hlost Bool.false_ne_true
  · obtain ⟨-, hs'⟩ := Option.ite_none_right_eq_some.mp h
    obtain rfl := Option.some.inj hs'
    exact absurd hlost Bool.false_ne_true
  · exact .inr ⟨rfl, rfl⟩
  · exact .inr ⟨rfl, rfl⟩
  · obtain ⟨-, hs'⟩ := Option.ite_none_right_eq_some.mp h
    obtain rfl := Option.some.inj hs'
    exact .inl hlost

theorem follow_neutral {op : Op} (h : op.neutral = true) (hpending : s.pending = false)
    (r : Reply op) : follow key s ⟨op, r⟩ = some s := by
  cases op <;> first
    | exact absurd h Bool.false_ne_true
    | cases s <;> first | rfl | exact absurd hpending Bool.false_ne_true.symm

/-- A row that is not that of an answered request. -/
theorem follow_insertLog {row : RequestLog} (h : row.status ≠ 200) (hpending : s.pending = false)
    (r : Reply (.insertLog row)) : follow key s ⟨.insertLog row, r⟩ = some s := by
  cases s <;> first
    | exact absurd hpending Bool.false_ne_true.symm
    | cases r <;> simp [follow, granted, reconciled, loggedTokens, h]

end Steps

/-! ## The parts of the handlers -/

/-- From this stage on the part does what is allowed, and it does not end between the charge and
the row. -/
abbrev Regular (key : Uuid) (s : Stage) (x : Action α) : Prop :=
  Watched anyReply (follow key) s x fun _ s' => s'.pending = false

abbrev NeutralPart (x : Action α) : Prop := Confined anyReply (fun op => op.neutral = true) x

section Parts
variable {key : Uuid} {s : Stage} {x : Action α} {f : α → Action β} {gw : RequestOrchestrator}
  {req : ChatRequest} {reservation : ReservationId}

theorem Regular.of_neutral (hx : NeutralPart x) (hs : s.pending = false) : Regular key s x :=
  (Watched.idle hx fun _ r hop => follow_neutral hop hs r).mono fun _ _ hs' => hs' ▸ hs

theorem Regular.after_neutral (hx : NeutralPart x) (hs : s.pending = false)
    (hf : ∀ a, Regular key s (f a)) : Regular key s (x >>= f) :=
  Watched.idle_bind hx (fun _ r hop => follow_neutral hop hs r) (fun _ => hs) hf

theorem neutral_call {op : Op} (h : op.neutral = true) :
    NeutralPart (Library.Action.call op : Action (Ret op)) :=
  (Straight.call trivial rfl).confined fun _ heq => heq ▸ h

theorem neutral_incr (metric : String) (labels : List (String × String)) :
    NeutralPart (incr gw metric labels) := by
  unfold incr
  split
  · exact neutral_call rfl
  · exact .pure _

theorem neutral_observe (metric : String) (value : ℚ) (labels : List (String × String)) :
    NeutralPart (observe gw metric value labels) := by
  unfold observe
  split
  · exact neutral_call rfl
  · exact .pure _

theorem Regular.after_call {op : Op} {f : Ret op → Action β} (hop : op.neutral = true)
    (hs : s.pending = false) (hf : ∀ a, Regular key s (f a)) :
    Regular key s (Orchestrator.call op >>= f) :=
  .after_neutral (neutral_call hop) hs hf

/-- The row with what has been charged. -/
theorem regular_row {tokens : Int} {row : RequestLog} {f : Unit → Action β}
    (hrow : row.status = 200 ∧ row.apiKeyId = key ∧ row.tokensIn + row.tokensOut = tokens)
    (hf : ∀ u, Regular key (.logged reservation tokens) (f u)) :
    Regular key (.charged reservation tokens) (Orchestrator.call (.insertLog row) >>= f) :=
  Watched.perform trivial (fun _ => ⟨_, rfl, rfl⟩) fun u => ⟨_, if_pos hrow, hf u⟩

/-- The reconciliation, after which the tokens are charged. -/
theorem regular_reconcile {tokens : Int} {f : Unit → Action β}
    (hf : ∀ u, Regular key (.charged reservation tokens) (f u)) :
    Regular key (.admitted reservation)
      (Orchestrator.call (.reconcile key reservation tokens) >>= f) :=
  Watched.perform trivial (fun _ => ⟨_, if_pos ⟨rfl, rfl⟩, rfl⟩)
    fun u => ⟨_, if_pos ⟨rfl, rfl⟩, hf u⟩

theorem regular_chargeHit (start : Time) (hit : CacheHit) {f : Unit → Action β}
    (hf : ∀ tokens u, Regular req.apiKey.id (.logged reservation tokens) (f u)) :
    Regular req.apiKey.id (.admitted reservation)
      (chargeHit gw req start reservation hit >>= f) := by
  simp only [chargeHit, bind_assoc]
  refine regular_reconcile fun _ => ?_
  refine Watched.perform trivial (fun _ => ⟨_, rfl, rfl⟩) fun now => ⟨_, rfl, ?_⟩
  refine regular_row ⟨rfl, rfl, rfl⟩ fun _ => ?_
  exact .after_neutral (neutral_incr _ _) rfl (hf _)

theorem regular_settle (gw : RequestOrchestrator) (req : ChatRequest) (start : Time)
    (reservation : ReservationId) (backend : Backend) (content : String)
    (tokensIn tokensOut : Int) (finishReason : Option String) {f : Int → Action β}
    (hf : ∀ tokens latency, Regular req.apiKey.id (.logged reservation tokens) (f latency)) :
    Regular req.apiKey.id (.admitted reservation)
      (settle gw req start reservation backend content tokensIn tokensOut finishReason >>= f) := by
  simp only [settle, latencyRecord, bind_assoc]
  have hstore : NeutralPart (store gw req content tokensIn tokensOut) :=
    ((admits_anyReply gw req).store content tokensIn tokensOut).confined fun op hop => by
      cases op <;> first | rfl | exact hop.elim
  refine .after_call rfl rfl fun now => .after_call rfl rfl fun _ => ?_
  refine .after_call rfl rfl fun _ => .after_call rfl rfl fun _ => ?_
  refine .after_neutral hstore rfl fun _ => regular_reconcile fun _ => ?_
  exact regular_row ⟨rfl, rfl, rfl⟩ fun _ => hf _ _

theorem regular_logUnavailable (start : Time) {f : Unit → Action β}
    (hf : ∀ u, Regular key (.admitted reservation) (f u)) :
    Regular key (.admitted reservation) (logUnavailable req start >>= f) := by
  simp only [logUnavailable, bind_assoc]
  refine .after_call rfl rfl fun now => Watched.perform trivial (fun e => ?_) fun u => ?_
  · exact ⟨_, follow_insertLog (by simp) rfl _, rfl⟩
  · exact ⟨_, follow_insertLog (by simp) rfl _, hf u⟩

theorem neutral_callTrace {backend : Backend} {client : Client} {call : List Event}
    {r : Except Raised Unit} (h : CallTrace backend client call r) :
    ∀ ev ∈ call, ev.1.neutral = true := by
  intro ev hev
  have hop := h.ops ev hev
  obtain ⟨op, r⟩ := ev
  cases op <;> first | rfl | exact hop.elim

/-- Where a pass through the loop may end: it goes on with the reservation untouched. -/
def PassEnds (reservation : ReservationId) : Except Raised (Pass α) → Stage → Prop
  | .ok (.next _), s => s = .admitted reservation
  | _, s => s.pending = false

/-- An answer ends the loop. -/
theorem passEnds_done {x : Action β} (a : α) (hx : Regular key (.admitted reservation) x) :
    Watched anyReply (follow key) (.admitted reservation) (x >>= fun _ => return .done a)
      (PassEnds reservation) :=
  Watched.bind hx (fun _ _ hs' => hs') fun _ _ hs' => .pure hs'

/-- A candidate has failed. -/
theorem passEnds_next {x : Action β} (err : Option Raised) (hx : NeutralPart x) :
    Watched anyReply (follow key) (.admitted reservation)
      (x >>= fun _ => return (.next err : Pass α)) (PassEnds reservation) :=
  Watched.idle_bind hx (fun _ r hop => follow_neutral hop rfl r) (fun _ => rfl) fun _ => .pure rfl

theorem passEnds_complete (start : Time) (backend : Backend) (client : Client) :
    Watched anyReply (follow req.apiKey.id) (.admitted reservation)
      (completeWith gw req start reservation backend client) (PassEnds reservation) := by
  unfold completeWith
  have hcall : NeutralPart (Library.Action.attempt (withSemaphore backend.id
      (Orchestrator.call (.complete client req.messages backend.model)))) :=
    (wp_attempt _).mpr (wp_mono (callTrace_complete (admits_anyReply gw req) backend client)
      fun _ _ h => neutral_callTrace h.1)
  refine Watched.idle_bind hcall (fun _ r hop => follow_neutral hop rfl r) (fun _ => rfl)
    fun outcome => ?_
  cases outcome with
  | error e =>
    dsimp only
    split
    · have hbooks : NeutralPart (Orchestrator.call (.record backend.id false) >>= fun _ =>
          incr gw "gateway_backend_calls_total"
            [("backend", backend.name), ("outcome", "error")]) :=
        Confined.bind (neutral_call rfl) fun _ => neutral_incr _ _
      simpa only [bind_assoc] using passEnds_next (some e) hbooks
    · exact .throw rfl
  | ok completion =>
    have htold : ∀ latency : Int, NeutralPart (incr gw "gateway_backend_calls_total"
        [("backend", backend.name), ("outcome", "ok")] >>= fun _ =>
        observe gw "gateway_request_latency_seconds" (latency / 1000) [("cache", "miss")]) :=
      fun latency => Confined.bind (neutral_incr _ _) fun _ => neutral_observe _ _ _
    have hanswered := passEnds_done (⟨completion.content, backend.model, completion.tokensIn,
      completion.tokensOut, some "stop", none, some backend.name⟩ : CompletionResult)
      (regular_settle gw req start reservation backend completion.content
        completion.tokensIn completion.tokensOut (some "stop")
        fun _ latency => .of_neutral (htold latency) rfl)
    simpa only [bind_assoc] using hanswered

theorem passEnds_stream (start : Time) (backend : Backend) (client : Client) :
    Watched anyReply (follow req.apiKey.id) (.admitted reservation)
      (streamWith gw req start reservation backend client) (PassEnds reservation) := by
  unfold streamWith
  have hcall : NeutralPart (streamFrom req backend client) :=
    wp_mono (callTrace_stream (admits_anyReply gw req) backend client)
      fun _ _ ⟨_, _, _, h, _⟩ => neutral_callTrace h
  refine Watched.idle_bind hcall (fun _ r hop => follow_neutral hop rfl r) (fun _ => rfl) ?_
  rintro ⟨s, ended⟩
  cases ended with
  | error e =>
    dsimp only
    split
    · refine Watched.idle_bind (neutral_call rfl) (fun _ r hop => follow_neutral hop rfl r)
        (fun _ => rfl) fun _ => ?_
      split
      · exact .throw rfl
      · exact .pure rfl
    · exact .throw rfl
  | ok u =>
    have htold : ∀ result, NeutralPart (incr gw "gateway_backend_calls_total"
        [("backend", backend.name), ("outcome", "ok")] >>= fun _ =>
        Orchestrator.call (.emit (.result result))) :=
      fun result => Confined.bind (neutral_incr _ _) fun _ => neutral_call rfl
    have hanswered := fun result => passEnds_done () (regular_settle gw req start
      reservation backend (String.join s.accumulated)
      ((s.usage.map Usage.tokensIn).getD 0) ((s.usage.map Usage.tokensOut).getD 0)
      ((s.usage.map Usage.finishReason).getD (some "stop"))
      fun _ latency => .of_neutral (htold result) rfl)
    simpa only [bind_assoc] using hanswered _

/-- The failover loop. -/
theorem regular_walk {stopped : Raised} {body : Backend → Client → Action (Pass α)}
    {exhausted : Option Raised → Action α}
    (hbody : ∀ backend client, Watched anyReply (follow key) (.admitted reservation)
      (body backend client) (PassEnds reservation))
    (hexhausted : ∀ err, Regular key (.admitted reservation) (exhausted err))
    (remaining : List (Backend × Client)) (err : Option Raised) :
    Regular key (.admitted reservation) (walk req stopped body exhausted remaining err) := by
  suffices h : WalkRule anyReply req stopped body exhausted (fun _ _ => True)
      (fun _ _ trace _ => ∃ s', (follow key).after (.admitted reservation) trace = some s' ∧
        s'.pending = false) from h.wp_walk trivial
  refine ⟨fun _ _ => trivial, fun _ _ _ => ⟨_, rfl, rfl⟩, fun _ _ _ _ => ⟨_, rfl, rfl⟩,
    fun _ _ => trivial, fun _ _ _ => ⟨_, rfl, rfl⟩,
    fun _ _ _ _ => ⟨trivial, fun _ _ hrest => hrest⟩, ?_, fun _ => hexhausted _⟩
  intro rem err chosen backend client _ _ _ _
  refine wp_mono (hbody backend client) fun trace r ⟨s₁, hs₁, hr⟩ => ?_
  cases r with
  | error e => exact ⟨s₁, hs₁, hr⟩
  | ok pass =>
    cases pass with
    | done a => exact ⟨s₁, hs₁, hr⟩
    | next err' =>
      obtain rfl : s₁ = .admitted reservation := hr
      refine ⟨trivial, fun trace' _ ⟨s', hs', hend⟩ => ⟨s', ?_, hend⟩⟩
      have hboth : (follow key).after (.admitted reservation) (trace ++ trace') = some s' := by
        rw [Monitor.after_append, hs₁]
        exact hs'
      exact hboth

/-- Both handlers. -/
theorem regular_pipeline (gw : RequestOrchestrator) (req : ChatRequest)
    {charged : Time → ReservationId → CacheHit → Action α}
    {loop : Time → ReservationId → List (Backend × Client) → Action α}
    (hcharged : ∀ start reservation hit,
      Regular req.apiKey.id (.admitted reservation) (charged start reservation hit))
    (hloop : ∀ start reservation remaining,
      Regular req.apiKey.id (.admitted reservation) (loop start reservation remaining)) :
    Regular req.apiKey.id .unadmitted (pipeline gw req charged loop) := by
  refine .after_call rfl rfl fun start => Watched.perform trivial (fun _ => ⟨_, rfl, rfl⟩) ?_
  intro reserved
  cases reserved with
  | none => exact ⟨_, rfl, .throw rfl⟩
  | some reservation =>
    refine ⟨.admitted reservation, if_pos rfl, ?_⟩
    have hlookup : NeutralPart (lookup gw req) :=
      (admits_anyReply gw req).lookup.confined fun op hop => by
        cases op <;> first | rfl | exact hop.elim
    refine Regular.after_neutral hlookup rfl fun hit => ?_
    cases hit with
    | some hit => exact hcharged start reservation hit
    | none =>
      refine Regular.after_call rfl rfl fun remaining => ?_
      split
      · exact .throw rfl
      · exact hloop start reservation remaining

theorem regular_handleComplete (gw : RequestOrchestrator) (req : ChatRequest) :
    Regular req.apiKey.id .unadmitted (handleComplete gw req) := by
  refine regular_pipeline gw req (fun start reservation hit => ?_)
    fun start reservation remaining => ?_
  · exact regular_chargeHit start hit fun _ _ => .pure rfl
  · refine regular_walk (passEnds_complete start) (fun err => ?_) remaining none
    refine regular_logUnavailable start fun _ => ?_
    exact .after_neutral (neutral_incr _ _) rfl fun _ => .throw rfl

theorem regular_handleStream (gw : RequestOrchestrator) (req : ChatRequest) :
    Regular req.apiKey.id .unadmitted (handleStream gw req) := by
  refine regular_pipeline gw req (fun start reservation hit => ?_)
    fun start reservation remaining => ?_
  · refine regular_chargeHit start hit fun _ _ => .after_call rfl rfl fun _ => ?_
    exact .of_neutral (neutral_call rfl) rfl
  · refine regular_walk (passEnds_stream start) (fun err => ?_) remaining none
    exact regular_logUnavailable start fun _ => .throw rfl

end Parts

/-! ## Requests in any number -/

section Stages
variable {key : Uuid} {s : Stage} {trace : List Event}

/-- The entries of a request are those of its stage. -/
theorem entries_of_after (h : (follow key).after .unadmitted trace = some s) :
    s.granted key = trace.flatMap granted ∧ s.reconciled key = trace.flatMap reconciled ∧
      s.charges key = trace.flatMap charges ∧ s.loggedTokens key = trace.flatMap loggedTokens := by
  refine ⟨?_, ?_, ?_, ?_⟩
  · exact Monitor.record_after h rfl fun _ _ _ hstep => (follow_entries hstep).1
  · exact Monitor.record_after h rfl fun _ _ _ hstep => (follow_entries hstep).2.1
  · exact Monitor.record_after h rfl fun _ _ _ hstep => (follow_entries hstep).2.2.1
  · exact Monitor.record_after h rfl fun _ _ _ hstep => (follow_entries hstep).2.2.2

/-- Nothing is reconciled that was not granted, and nothing logged that was not charged. -/
theorem entries_nest (h : (follow key).after .unadmitted trace = some s) :
    trace.flatMap reconciled <+: trace.flatMap granted ∧
      trace.flatMap loggedTokens <+: trace.flatMap charges := by
  obtain ⟨hgranted, hreconciled, hcharges, hlogged⟩ := entries_of_after h
  rw [← hgranted, ← hreconciled, ← hcharges, ← hlogged]
  cases s <;> exact ⟨by simp [Stage.reconciled, Stage.granted],
    by simp [Stage.loggedTokens, Stage.charges]⟩

/-- A request that has ended has logged what it was charged, if nothing in between has raised. -/
theorem entries_eq (h : (follow key).after .unadmitted trace = some s) (hs : s.pending = false)
    (hkept : ∀ ev ∈ trace, ev.1.precedesRow = true → ev.2.isOk = true) :
    trace.flatMap loggedTokens = trace.flatMap charges := by
  obtain ⟨-, -, hcharges, hlogged⟩ := entries_of_after h
  rw [← hcharges, ← hlogged]
  cases s with
  | charged => exact absurd hs Bool.false_ne_true.symm
  | unlogged id tokens =>
    obtain ⟨ev, hev, hop, hraised⟩ := Monitor.exists_cause (P := fun s => s.lost = true)
      (fun _ _ _ => lost_cause) Bool.false_ne_true h rfl
    rw [hkept ev hev hop] at hraised
    exact absurd hraised Bool.false_ne_true.symm
  | _ => rfl

end Stages

section Runs
variable {State : Type} {S : Pool.System Nat State Op Reply Outcome} {gw : RequestOrchestrator}
  {w : Pool Nat State Op Reply Outcome} {task : Nat × Program Op Reply Outcome}

/-- The tasks are chat requests. -/
def RunsRequests (S : Pool.System Nat State Op Reply Outcome) (gw : RequestOrchestrator) : Prop :=
  ∀ tag p, S.starts tag p → ∃ req : ChatRequest,
    p = Outcome.completed <$> (handleComplete gw req).run ∨
      p = Outcome.streamed <$> (handleStream gw req).run

/-- A request is at some stage, and not between charge and row once it has ended. -/
theorem exists_stage (hrequests : RunsRequests S gw) (h : Pool.Reachable S w)
    (hnodup : (w.tasks.map Prod.fst).Nodup) (htask : task ∈ w.tasks) :
    ∃ key s, (follow key).after .unadmitted (Pool.own task.1 w.history) = some s ∧
      ∀ outcome, task.2 = .pure outcome → s.pending = false := by
  obtain ⟨p, hstart, hfollows⟩ := h.follows hnodup task htask
  obtain ⟨key, hregular⟩ : ∃ key, Program.wp anyReply p fun trace _ =>
      ∃ s, (follow key).after .unadmitted trace = some s ∧ s.pending = false := by
    obtain ⟨req, rfl | rfl⟩ := hrequests _ _ hstart
    · exact ⟨_, (Program.wp_map _ _).mpr (regular_handleComplete gw req)⟩
    · exact ⟨_, (Program.wp_map _ _).mpr (regular_handleStream gw req)⟩
  obtain ⟨rest, _, s', hs', -⟩ := hfollows.exists_end hregular (fun _ _ => trivial)
    fun op => ⟨.error .cancelled, trivial⟩
  obtain ⟨s, hs⟩ := Monitor.exists_after_left hs'
  refine ⟨key, s, hs, fun outcome hended => ?_⟩
  rw [hended] at hfollows
  obtain ⟨s₁, hs₁, hpending⟩ := hfollows.ended hregular fun _ _ => trivial
  rw [hs] at hs₁
  exact Option.some.inj hs₁ ▸ hpending

/-- No reservation is reconciled more often than it was granted. -/
theorem reconciled_subperm_granted (hrequests : RunsRequests S gw) (h : Pool.Reachable S w)
    (hnodup : (w.tasks.map Prod.fst).Nodup) :
    (w.history.flatMap fun e => reconciled e.2) <+~ w.history.flatMap fun e => granted e.2 := by
  refine Pool.subperm_of_own (fun _ => reconciled) (fun _ => granted) hnodup h.mem_tags
    fun tag htag => ?_
  obtain ⟨task, htask, rfl⟩ := List.mem_map.mp htag
  obtain ⟨key, s, hs, -⟩ := exists_stage hrequests h hnodup htask
  exact (entries_nest hs).1.sublist

/-- The log does not run ahead of the charges. -/
theorem logged_subperm_charges (hrequests : RunsRequests S gw) (h : Pool.Reachable S w)
    (hnodup : (w.tasks.map Prod.fst).Nodup) :
    (w.history.flatMap fun e => loggedTokens e.2) <+~ w.history.flatMap fun e => charges e.2 := by
  refine Pool.subperm_of_own (fun _ => loggedTokens) (fun _ => charges) hnodup h.mem_tags
    fun tag htag => ?_
  obtain ⟨task, htask, rfl⟩ := List.mem_map.mp htag
  obtain ⟨key, s, hs, -⟩ := exists_stage hrequests h hnodup htask
  exact (entries_nest hs).2.sublist

/-- In the end it has caught up with them, if nothing in between has raised. -/
theorem logged_perm_charges (hrequests : RunsRequests S gw) (h : Pool.Reachable S w)
    (hnodup : (w.tasks.map Prod.fst).Nodup)
    (hended : ∀ task ∈ w.tasks, ∃ outcome, task.2 = .pure outcome)
    (hkept : ∀ e ∈ w.history, e.2.1.precedesRow = true → e.2.2.isOk = true) :
    (w.history.flatMap fun e => loggedTokens e.2) ~ w.history.flatMap fun e => charges e.2 := by
  refine Pool.perm_of_own (fun _ => loggedTokens) (fun _ => charges) hnodup h.mem_tags
    fun tag htag => ?_
  obtain ⟨task, htask, rfl⟩ := List.mem_map.mp htag
  obtain ⟨outcome, heq⟩ := hended task htask
  obtain ⟨key, s, hs, hpending⟩ := exists_stage hrequests h hnodup htask
  exact entries_eq hs (hpending outcome heq) fun ev hev =>
    hkept (task.1, ev) (Pool.mem_own.mp hev)

end Runs

end InferenceGateway.Orchestrator
