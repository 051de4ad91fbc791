import InferenceGateway.Orchestrator.Logging
import InferenceGateway.Resilience.RateLimitAbandon

/-!
# The budget of a failed request

A request that finds no backend, or whose candidates all fail, makes its reservation and
never reconciles it: the estimate stays in the window.
-/
namespace InferenceGateway.Orchestrator
open Library Library.Action Resilience.RateLimit

variable {α : Type}

/-- The call of the limiter that an event is. -/
def limiterCall : Event → Option Call
  | ⟨.reserve _ est _ _, .ok (some id)⟩ => some (.reserve id est)
  | ⟨.reconcile _ id actual, _⟩ => some (.reconcile id actual)
  | _ => none

def limiterCalls (trace : List Event) : List Call := trace.filterMap limiterCall

/-- The request ends in `NoBackendsAvailable` or `AllBackendsUnavailable`, and no text has
been delivered. -/
structure FailsUnserved (trace : List Event) (r : Except Raised α) : Prop where
  unserved : r = .error .noBackendsAvailable ∨ ∃ err, r = .error (.allBackendsUnavailable err)
  undelivered : delivered trace = false

/-- Nothing else raises the exceptions of the gateway. -/
def Foreign (op : Op) (r : Reply op) : Prop :=
  ∀ e, r = .error e → e ≠ .noBackendsAvailable ∧ ∀ err, e ≠ .allBackendsUnavailable err

/-- The operations of the limiter. -/
def Op.limits : Op → Bool
  | .reserve .. | .reconcile .. => true
  | _ => false

section Traces
variable {trace trace' : List Event} {r : Except Raised α} {req : ChatRequest} {streaming : Bool}

theorem limiterCalls_eq_nil (h : ∀ ev ∈ trace, ev.1.limits = false) : limiterCalls trace = [] := by
  refine List.filterMap_eq_nil_iff.mpr fun ev hev => ?_
  have hop := h ev hev
  unfold limiterCall
  split
  · exact nomatch hop
  · exact nomatch hop
  · rfl

/-- An exception of an operation is not one of the gateway. -/
theorem not_unserved (hforeign : ∀ ev ∈ trace, Foreign ev.1 ev.2) (h : Ended trace r) :
    ¬ (r = .error .noBackendsAvailable ∨ ∃ err, r = .error (.allBackendsUnavailable err)) := by
  cases r with
  | ok a => simp
  | error e =>
    obtain ⟨op, hop⟩ := h.raised
    obtain ⟨hno, hall⟩ := hforeign _ hop e rfl
    rintro (heq | ⟨err, heq⟩)
    · exact hno (Except.error.inj heq)
    · exact hall err (Except.error.inj heq)

theorem limits_of_lookupOp {op : Op} (h : LookupOp req op) : op.limits = false := by
  cases op <;> first | rfl | exact h.elim

theorem limits_of_clockOp {op : Op} (h : ClockOp op) : op.limits = false := by
  cases op <;> first | rfl | exact h.elim

theorem limits_of_failoverMetric {op : Op} (h : FailoverMetric op) : op.limits = false := by
  cases op <;> first | rfl | exact h.elim

theorem limits_of_callOp {backend : Backend} {client : Client} {op : Op}
    (h : CallOp backend client op) : op.limits = false := by
  cases op <;> first | rfl | exact h.elim

theorem limits_of_failureOp {backend : Backend} {op : Op} (h : FailureOp backend op) :
    op.limits = false := by
  cases op <;> first | rfl | exact h.elim

/-- A pass after which the loop goes on does not call the limiter, and one that ends it
with no text delivered does not end it in an exception of the gateway. -/
theorem BodyTrace.unserved {backend : Backend} {client : Client} {β : Type}
    {r : Except Raised (Pass β)} (h : BodyTrace req streaming backend client trace r)
    (hforeign : ∀ ev ∈ trace, Foreign ev.1 ev.2) :
    (∀ err, r = .ok (.next err) → ∀ ev ∈ trace, ev.1.limits = false) ∧ ¬ FailsUnserved trace r := by
  cases h with
  | @cancelled call e hcall he =>
    refine ⟨nofun, fun hfails => ?_⟩
    obtain heq | ⟨err, heq⟩ := hfails.unserved
    all_goals
      rw [Except.error.inj heq] at he
      exact nomatch he
  | @failed call after e r hcall he hops hended =>
    obtain ⟨-, hafter⟩ := List.forall_mem_append.mp hforeign
    have hquiet : ∀ ev ∈ call ++ after, ev.1.limits = false := List.forall_mem_append.mpr
      ⟨fun ev hev => limits_of_callOp (hcall.ops ev hev), fun ev hev =>
        limits_of_failureOp (hops ev hev)⟩
    refine ⟨fun _ _ => hquiet, fun hfails => ?_⟩
    cases r with
    | error e' => exact not_unserved hafter hended (by simpa [Except.bind] using hfails.unserved)
    | ok u =>
      have hundelivered := hfails.undelivered
      rw [delivered_append, Bool.or_eq_false_iff] at hundelivered
      simpa [Except.bind, hundelivered.1] using hfails.unserved
  | @answered call after r hcall hlogs hdone =>
    refine ⟨fun err heq => ?_, fun hfails => ?_⟩
    · obtain ⟨a, ha⟩ := hdone _ heq
      exact nomatch ha
    · exact not_unserved hforeign (Ended.after hcall.smooth (hlogs.ended fun _ _ h => h.ended))
        hfails.unserved

theorem WalkTrace.unserved {rem : List (Backend × Client)} {err : Option Raised}
    (h : WalkTrace req streaming rem err trace r) (hforeign : ∀ ev ∈ trace, Foreign ev.1 ev.2)
    (hfails : FailsUnserved trace r) : ∀ ev ∈ trace, ev.1.limits = false := by
  induction h with
  | exhausted hlogs =>
    exact hlogs.forall_mem (P := fun op => op.limits = false) (fun _ => limits_of_clockOp)
      (fun _ => rfl) fun _ _ htail ev hev => limits_of_failoverMetric (htail.ops ev hev)
  | unselected => exact List.forall_mem_singleton.mpr rfl
  | stopped => exact List.forall_mem_singleton.mpr rfl
  | unasked => exact List.forall_mem_cons.mpr ⟨rfl, List.forall_mem_singleton.mpr rfl⟩
  | rejected _ _ ih =>
    refine List.forall_mem_cons.mpr ⟨rfl, List.forall_mem_cons.mpr ⟨rfl, ?_⟩⟩
    exact ih (fun ev hev => hforeign ev (by simp [hev])) ⟨hfails.unserved, hfails.undelivered⟩
  | raised _ hbody =>
    have hserved := (hbody.unserved fun ev hev => hforeign ev (by simp [hev])).2
    exact absurd ⟨by simpa using hfails.unserved, hfails.undelivered⟩ hserved
  | done => simpa using hfails.unserved
  | @next rem err err' chosen backend client trace trace' r _ hbody _ ih =>
    have hundelivered : delivered (trace ++ trace') = false := hfails.undelivered
    rw [delivered_append, Bool.or_eq_false_iff] at hundelivered
    refine List.forall_mem_cons.mpr ⟨rfl, List.forall_mem_cons.mpr ⟨rfl,
      List.forall_mem_append.mpr ⟨?_, ?_⟩⟩⟩
    · exact (hbody.unserved fun ev hev => hforeign ev (by simp [hev])).1 _ rfl
    · exact ih (fun ev hev => hforeign ev (by simp [hev])) ⟨hfails.unserved, hundelivered.2⟩

/-- A request that fails unserved makes its reservation, and calls the limiter no more. -/
theorem RequestTrace.one_call (h : RequestTrace req streaming trace r)
    (hforeign : ∀ ev ∈ trace, Foreign ev.1 ev.2) (hfails : FailsUnserved trace r) :
    ∃ id, limiterCalls trace = [.reserve id (estimateTokens req.messages)] := by
  have hlead : ∀ {lead rest : List Event}, Lead req lead → (∀ ev ∈ rest, ev.1.limits = false) →
      ∃ id, limiterCalls (lead ++ rest) = [.reserve id (estimateTokens req.messages)] := by
    rintro _ rest ⟨start, id, look, rfl, hops, -⟩ hrest
    have hquiet : ∀ ev ∈ look ++ rest, ev.1.limits = false :=
      List.forall_mem_append.mpr ⟨fun ev hev => limits_of_lookupOp (hops ev hev), hrest⟩
    have hcalls : limiterCalls (⟨.perfCounter, .ok start⟩ :: ⟨.reserve req.apiKey.id
        (estimateTokens req.messages) req.apiKey.tokenBudget req.apiKey.windowSeconds,
        .ok (some id)⟩ :: (look ++ rest)) =
        .reserve id (estimateTokens req.messages) :: limiterCalls (look ++ rest) := rfl
    exact ⟨id, hcalls.trans (congrArg _ (limiterCalls_eq_nil hquiet))⟩
  cases h with
  | unread => exact absurd hfails.unserved (not_unserved hforeign ⟨[], _, rfl, .nil⟩)
  | unreserved =>
    exact absurd hfails.unserved (not_unserved hforeign (Ended.cons _ ⟨[], _, rfl, .nil⟩))
  | denied => simpa using hfails.unserved
  | interrupted hl _ hended =>
    exact absurd hfails.unserved (not_unserved hforeign (Ended.after hl.smooth hended))
  | hit hl hlogs =>
    exact absurd hfails.unserved (not_unserved hforeign
      (Ended.after hl.smooth (hlogs.ended fun _ _ h => h.ended)))
  | unavailable hl => exact hlead hl (List.forall_mem_singleton.mpr rfl)
  | @walked lead trace remaining r hl hne hwalk =>
    refine hlead hl (List.forall_mem_cons.mpr ⟨rfl, ?_⟩)
    have hundelivered := hfails.undelivered
    rw [delivered_append, Bool.or_eq_false_iff] at hundelivered
    exact hwalk.unserved (fun ev hev => hforeign ev (by simp [hev]))
      ⟨hfails.unserved, hundelivered.2⟩

end Traces

/-- What a failed request leaves behind. Its calls of the limiter are one reserve. Among the
same other calls the key counts as many tokens as without it exactly if the entry is spent and
the other entries count as many as without it, or it is not and they count for its estimate
less. -/
def LeavesReservation (req : ChatRequest) (trace : List Event) : Prop :=
  ∃ id, limiterCalls trace = [.reserve id (estimateTokens req.messages)] ∧
    ∀ (before between : List Request) (served₀ clock₀ served clock : Time),
      let est : Int := estimateTokens req.messages
      let own : Request := ⟨served₀, clock₀, .reserve id est⟩
      let withRequest := (limiter req.apiKey).state (before ++ [own] ++ between)
      let without := (limiter req.apiKey).state (before ++ between)
      let spent := Spent req.apiKey id est (before ++ [own]) between clock₀ served clock
      (serve req.apiKey ((limiter req.apiKey).state before) own).1 = .admitted →
      (∀ r ∈ before ++ between, r.about ≠ id) →
      (tokenTotal req.apiKey withRequest served clock = tokenTotal req.apiKey without served clock ↔
        (spent ∧ otherTotal req.apiKey id withRequest served clock =
          otherTotal req.apiKey id without served clock) ∨
        (¬ spent ∧ est + otherTotal req.apiKey id withRequest served clock =
          otherTotal req.apiKey id without served clock))

theorem leavesReservation_of_trace {req : ChatRequest} {streaming : Bool} {trace : List Event}
    {r : Except Raised α} (h : RequestTrace req streaming trace r)
    (hforeign : ∀ ev ∈ trace, Foreign ev.1 ev.2) (hfails : FailsUnserved trace r) :
    LeavesReservation req trace := by
  obtain ⟨id, hcalls⟩ := h.one_call hforeign hfails
  refine ⟨id, hcalls, fun before between served₀ clock₀ served clock => ?_⟩
  intro est own withRequest without spent hadmitted hothers
  exact abandoned_unspent_iff req.apiKey before between served₀ clock₀ served clock id est
    hadmitted hothers

theorem leavesReservation_run {req : ChatRequest} {streaming : Bool} {x : Action α}
    {answer : List Event → (op : Op) → Reply op}
    (hx : wp (.expecting Foreign) x (RequestTrace req streaming))
    (hforeign : ∀ past op, Foreign op (answer past op))
    (hfails : FailsUnserved (Program.run answer [] x.run).1 (Program.run answer [] x.run).2) :
    LeavesReservation req (Program.run answer [] x.run).1 := by
  obtain ⟨hkept, htrace⟩ := Program.wp_run (Program.wp_kept hx) hforeign []
  exact leavesReservation_of_trace htrace (fun ev hev => (hkept ev hev).2) hfails

/-- A request that fails unserved, through either handler, whatever happens around it. -/
theorem failed_request_budget (gw : RequestOrchestrator) (req : ChatRequest)
    (answer : List Event → (op : Op) → Reply op)
    (hforeign : ∀ past op, Foreign op (answer past op)) :
    (FailsUnserved (Program.run answer [] (handleComplete gw req).run).1
        (Program.run answer [] (handleComplete gw req).run).2 →
      LeavesReservation req (Program.run answer [] (handleComplete gw req).run).1) ∧
    (FailsUnserved (Program.run answer [] (handleStream gw req).run).1
        (Program.run answer [] (handleStream gw req).run).2 →
      LeavesReservation req (Program.run answer [] (handleStream gw req).run).1) :=
  ⟨leavesReservation_run (handleComplete_trace (.of_allowed fun _ => trivial)) hforeign,
    leavesReservation_run (handleStream_trace (.of_allowed fun _ => trivial)) hforeign⟩

theorem foreign_emptyRegistry (op : Op) : Foreign op (emptyRegistry op) := by
  intro e h
  cases op with
  | select offered features =>
    cases offered with
    | nil =>
      obtain rfl := Except.error.inj h
      exact ⟨nofun, nofun⟩
    | cons b offered => exact nomatch h
  | complete client messages model =>
    obtain ⟨_ | n⟩ := client
    · obtain rfl := Except.error.inj h
      exact ⟨nofun, nofun⟩
    · exact nomatch h
  | anext client =>
    obtain ⟨_ | n⟩ := client
    · obtain rfl := Except.error.inj h
      exact ⟨nofun, nofun⟩
    · exact nomatch h
  | _ => exact nomatch h

theorem fails_emptyRegistry : FailsUnserved
    (Program.run (fun _ => emptyRegistry) []
      (handleComplete ⟨true, fun _ => "digest"⟩ hiRequest).run).1
    (Program.run (fun _ => emptyRegistry) []
      (handleComplete ⟨true, fun _ => "digest"⟩ hiRequest).run).2 :=
  ⟨.inl rfl, rfl⟩

theorem failed_request_budget_emptyRegistry : LeavesReservation hiRequest
    (Program.run (fun _ => emptyRegistry) []
      (handleComplete ⟨true, fun _ => "digest"⟩ hiRequest).run).1 :=
  (failed_request_budget _ hiRequest _ fun _ => foreign_emptyRegistry).1 fails_emptyRegistry

/-- No backend serves the model. A second later the key still counts the token that was
reserved. -/
theorem failed_request_consumes :
    let run := Program.run (fun _ => emptyRegistry) []
      (handleComplete ⟨true, fun _ => "digest"⟩ hiRequest).run
    FailsUnserved run.1 run.2 ∧ limiterCalls run.1 = [.reserve idA 1] ∧
      (serve hiRequest.apiKey ((limiter hiRequest.apiKey).state []) ⟨0, 0, .reserve idA 1⟩).1 =
        .admitted ∧
      tokenTotal hiRequest.apiKey ((limiter hiRequest.apiKey).state [⟨0, 0, .reserve idA 1⟩]) 1 1 ≠
        tokenTotal hiRequest.apiKey ((limiter hiRequest.apiKey).state []) 1 1 := by
  refine ⟨fails_emptyRegistry, by decide +kernel, by decide +kernel, by decide +kernel⟩

end InferenceGateway.Orchestrator
