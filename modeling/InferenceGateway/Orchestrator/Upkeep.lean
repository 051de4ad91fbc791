import InferenceGateway.Library.Gives
import InferenceGateway.Orchestrator.Rules

/-!
# Requests under a contract

What a request writes down is made of what it has been answered: the tokens it charges and
stores are those that a cache or a backend has reported, and the backend it logs is one that it
has been offered. So it keeps every contract that asks no more of what is written than it
promises of what is answered.
-/
namespace InferenceGateway.Orchestrator
open Library Library.Action Resilience

/-- Operations that charge, store and log nothing. -/
def Op.isPlain : Op → Bool
  | .perfCounter | .exactGet .. | .embed _ | .findSimilar .. | .candidates _
  | .select .. | .allow _ | .record .. | .acquire _ | .release _ | .complete .. | .stream ..
  | .anext _ | .emit _ | .lpush .. | .ltrim _ | .incr .. | .observe .. => true
  | _ => false

/-- The contract lets the request write tokens that are `Fair` and backends that are `Known`, and
promises that it is answered no others. -/
structure Upkeep (C : Contract) (gw : RequestOrchestrator) (req : ChatRequest)
    (Fair : Int → Int → Prop) (Known : Backend → Prop) : Prop where
  plain : ∀ op, op.isPlain = true → C.allowed op
  reserve : C.allowed (.reserve req.apiKey.id (estimateTokens req.messages) req.apiKey.tokenBudget
    req.apiKey.windowSeconds)
  reconcile : ∀ reservation tokensIn tokensOut, Fair tokensIn tokensOut →
    C.allowed (.reconcile req.apiKey.id reservation (tokensIn + tokensOut))
  exactPut : ∀ content tokensIn tokensOut, Fair tokensIn tokensOut →
    C.allowed (.exactPut req.model (promptHash gw.sha256 req.model req.messages) content tokensIn
      tokensOut)
  insertEntry : ∀ embedding content tokensIn tokensOut, Fair tokensIn tokensOut →
    C.allowed (.insertEntry ⟨req.model, promptHash gw.sha256 req.model req.messages, embedding,
      content, tokensIn, tokensOut⟩)
  hitRow : ∀ latencyMs (tier : CacheTier) tokensIn tokensOut, Fair tokensIn tokensOut →
    C.allowed (.insertLog {
      apiKeyId := req.apiKey.id, model := req.model, latencyMs, status := 200,
      cacheTier := some tier.value, tokensIn, tokensOut })
  servedRow : ∀ latencyMs backend tokensIn tokensOut finishReason, Known backend →
    Fair tokensIn tokensOut → C.allowed (.insertLog {
      apiKeyId := req.apiKey.id, model := req.model, latencyMs, status := 200,
      backendId := some backend.id, tokensIn, tokensOut, cost := cost backend tokensIn tokensOut,
      finishReason })
  unavailableRow : ∀ latencyMs, C.allowed (.insertLog {
    apiKeyId := req.apiKey.id, model := req.model, latencyMs, status := 503 })
  exactHit : ∀ model promptHash hit, C.promised (.exactGet model promptHash) (.ok (some hit)) →
    Fair hit.tokensIn hit.tokensOut
  similar : ∀ model embedding entry, C.promised (.findSimilar model embedding) (.ok (some entry)) →
    Fair entry.tokensIn entry.tokensOut
  offered : ∀ model pairs, C.promised (.candidates model) (.ok pairs) → ∀ pair ∈ pairs, Known pair.1
  completed : ∀ client messages model completion,
    C.promised (.complete client messages model) (.ok completion) →
    Fair completion.tokensIn completion.tokensOut
  streamed : ∀ client messages model events,
    C.promised (.stream client messages model) (.ok events) →
    ∀ u, .usage u ∈ events → Fair u.tokensIn u.tokensOut
  /-- A stream without a usage event is charged nothing. -/
  silent : Fair 0 0

namespace Upkeep
variable {C : Contract} {gw : RequestOrchestrator} {req : ChatRequest} {Fair : Int → Int → Prop}
  {Known : Backend → Prop} (h : Upkeep C gw req Fair Known)
include h

theorem incr (metric : String) (labels : List (String × String)) :
    Gives C (Orchestrator.incr gw metric labels) fun _ => True := by
  unfold Orchestrator.incr
  split
  · exact Gives.call (h.plain _ rfl) fun _ _ => trivial
  · exact Gives.pure trivial

theorem observe (metric : String) (value : ℚ) (labels : List (String × String)) :
    Gives C (Orchestrator.observe gw metric value labels) fun _ => True := by
  unfold Orchestrator.observe
  split
  · exact Gives.call (h.plain _ rfl) fun _ _ => trivial
  · exact Gives.pure trivial

theorem lookup : Gives C (Orchestrator.lookup gw req) fun hit =>
    ∀ x, hit = some x → Fair x.tokensIn x.tokensOut := by
  unfold Orchestrator.lookup
  split
  · exact Gives.pure (by simp)
  · refine Gives.perform (h.plain _ rfl) fun hit hexact => ?_
    cases hit with
    | some hit => exact Gives.pure fun x hx => h.exactHit _ _ x (hx ▸ hexact)
    | none =>
      refine Gives.perform (h.plain _ rfl) fun embedding _ => ?_
      cases embedding with
      | none => exact Gives.pure (by simp)
      | some embedding =>
        refine Gives.perform (h.plain _ rfl) fun entry hsimilar => Gives.pure fun x hx => ?_
        obtain ⟨row, rfl, rfl⟩ := Option.map_eq_some_iff.mp hx
        exact h.similar _ _ row hsimilar

theorem chargeHit (start : Time) (reservation : RateLimit.ReservationId) {hit : CacheHit}
    (hfair : Fair hit.tokensIn hit.tokensOut) :
    Gives C (Orchestrator.chargeHit gw req start reservation hit) fun _ => True :=
  Gives.perform (h.reconcile _ _ _ hfair) fun _ _ => Gives.perform (h.plain _ rfl) fun _ _ =>
    Gives.perform (h.hitRow _ _ _ _ hfair) fun _ _ => h.incr _ _

theorem store (content : String) {tokensIn tokensOut : Int} (hfair : Fair tokensIn tokensOut) :
    Gives C (Orchestrator.store gw req content tokensIn tokensOut) fun _ => True := by
  unfold Orchestrator.store
  split
  · exact Gives.pure trivial
  · refine Gives.perform (h.exactPut _ _ _ hfair) fun _ _ => ?_
    refine Gives.perform (h.plain _ rfl) fun embedding _ => ?_
    cases embedding with
    | none => exact Gives.pure trivial
    | some embedding => exact Gives.call (h.insertEntry _ _ _ _ hfair) fun _ _ => trivial

theorem settle (start : Time) (reservation : RateLimit.ReservationId) {backend : Backend}
    (hknown : Known backend) (content : String) {tokensIn tokensOut : Int}
    (hfair : Fair tokensIn tokensOut) (finishReason : Option String) :
    Gives C (Orchestrator.settle gw req start reservation backend content tokensIn tokensOut
      finishReason) fun _ => True := by
  refine Gives.perform (h.plain _ rfl) fun now _ => Gives.perform (h.plain _ rfl) fun _ _ => ?_
  refine Gives.bind (R := fun _ => True) (Gives.perform (h.plain _ rfl) fun _ _ =>
    Gives.call (h.plain _ rfl) fun _ _ => trivial) fun _ _ => ?_
  refine (h.store content hfair).bind fun _ _ => ?_
  refine Gives.perform (h.reconcile _ _ _ hfair) fun _ _ => ?_
  exact Gives.perform (h.servedRow _ _ _ _ _ hknown hfair) fun _ _ => Gives.pure trivial

theorem withSemaphore {α : Type} {R : α → Prop} {backendId : Uuid} {body : Action α}
    (hbody : Gives C body R) : Gives C (Orchestrator.withSemaphore backendId body) R := by
  refine Gives.perform (h.plain _ rfl) fun _ _ => hbody.attempt.bind fun outcome houtcome => ?_
  refine Gives.perform (h.plain _ rfl) fun _ _ => ?_
  cases outcome with
  | ok a => exact Gives.pure (houtcome a rfl)
  | error e => exact Gives.throw

/-- The failover loop only tries backends that were offered. -/
theorem walk {α : Type} {stopped : Raised} {body : Backend → Client → Action (Pass α)}
    {exhausted : Option Raised → Action α}
    (hbody : ∀ backend client, Known backend → Gives C (body backend client) fun _ => True)
    (hexhausted : ∀ err, Gives C (exhausted err) fun _ => True)
    {remaining : List (Backend × Client)} (hknown : ∀ pair ∈ remaining, Known pair.1)
    (err : Option Raised) :
    Gives C (Orchestrator.walk req stopped body exhausted remaining err) fun _ => True := by
  suffices hwalk : WalkRule C req stopped body exhausted
      (fun rem _ => ∀ pair ∈ rem, Known pair.1) (fun _ _ _ r => ∀ a, r = .ok a → True) from
    hwalk.wp_walk hknown
  have hrest : ∀ {rem : List (Backend × Client)} {chosen : Uuid}, (∀ pair ∈ rem, Known pair.1) →
      ∀ pair ∈ without chosen rem, Known pair.1 := fun hrem pair hpair =>
    hrem pair (List.mem_filter.mp hpair).1
  refine ⟨fun _ _ => h.plain _ rfl, fun _ _ _ _ _ => trivial, fun _ _ _ _ _ _ => trivial,
    fun _ _ => h.plain _ rfl, fun _ _ _ _ _ => trivial,
    fun hrem _ _ _ => ⟨hrest hrem, fun _ _ => id⟩, ?_, fun _ => hexhausted _⟩
  intro rem err chosen backend client hrem _ hpair _
  have hbackend : Known backend := hrem _ (List.mem_of_find?_eq_some hpair)
  refine wp_mono (hbody backend client hbackend) fun trace r _ => ?_
  cases r with
  | error e => exact fun _ _ => trivial
  | ok pass =>
    cases pass with
    | done a => exact fun _ _ => trivial
    | next err' => exact ⟨hrest hrem, fun _ _ => id⟩

theorem completeWith (start : Time) (reservation : RateLimit.ReservationId) {backend : Backend}
    (hknown : Known backend) (client : Client) :
    Gives C (Orchestrator.completeWith gw req start reservation backend client)
      fun _ => True := by
  have hcall : Gives C (Orchestrator.withSemaphore backend.id
      (call (.complete client req.messages backend.model))) fun completion =>
        Fair completion.tokensIn completion.tokensOut :=
    h.withSemaphore (Gives.call (h.plain _ rfl) fun completion => h.completed _ _ _ completion)
  refine hcall.attempt.bind fun outcome houtcome => ?_
  cases outcome with
  | error e =>
    dsimp only
    split
    · refine Gives.perform (h.plain _ rfl) fun _ _ => (h.incr _ _).bind fun _ _ => ?_
      exact Gives.pure trivial
    · exact Gives.throw
  | ok completion =>
    refine (h.settle start reservation hknown _ (houtcome completion rfl) _).bind ?_
    refine fun latency _ => (h.incr _ _).bind fun _ _ => ?_
    exact (h.observe _ _ _).bind fun _ _ => Gives.pure trivial

theorem logUnavailable (start : Time) :
    Gives C (Orchestrator.logUnavailable req start) fun _ => True :=
  Gives.perform (h.plain _ rfl) fun _ _ => Gives.call (h.unavailableRow _) fun _ _ => trivial

theorem handleComplete : Gives C (Orchestrator.handleComplete gw req) fun _ => True := by
  refine Gives.perform (h.plain _ rfl) fun start _ =>
    Gives.perform h.reserve fun reservation _ => ?_
  cases reservation with
  | none => exact Gives.throw
  | some reservation =>
    refine h.lookup.bind fun hit hfair => ?_
    cases hit with
    | some hit =>
      exact (h.chargeHit start reservation (hfair hit rfl)).bind fun _ _ => Gives.pure trivial
    | none =>
      refine Gives.perform (h.plain _ rfl) fun remaining hoffered => ?_
      split
      · exact Gives.throw
      · refine h.walk (fun _ client hknown => h.completeWith start reservation hknown client)
          (fun err => ?_) (h.offered _ _ hoffered) none
        exact (h.logUnavailable start).bind fun _ _ => (h.incr _ _).bind fun _ _ => Gives.throw

/-- What a stream has delivered is charged fairly. -/
theorem consume (client : Client) {events : List StreamEvent}
    (hfair : ∀ u, .usage u ∈ events → Fair u.tokensIn u.tokensOut) {s : Consumed}
    (hs : ∀ u, s.usage = some u → Fair u.tokensIn u.tokensOut) :
    Gives C (Orchestrator.consume client events s) fun r =>
      ∀ u, r.1.usage = some u → Fair u.tokensIn u.tokensOut := by
  induction events generalizing s with
  | nil => exact Gives.perform_attempt (h.plain _ rfl) fun _ _ => Gives.pure hs
  | cons event events ih =>
    have hrest : ∀ u, .usage u ∈ events → Fair u.tokensIn u.tokensOut :=
      fun u hu => hfair u (List.mem_cons_of_mem _ hu)
    refine Gives.perform_attempt (h.plain _ rfl) fun r _ => ?_
    cases r with
    | error e => exact Gives.pure hs
    | ok u =>
      cases event with
      | usage u =>
        refine ih hrest fun u' hu' => ?_
        obtain rfl := Option.some.inj hu'
        exact hfair _ List.mem_cons_self
      | text chunk =>
        refine Gives.perform_attempt (h.plain _ rfl) fun r _ => ?_
        cases r with
        | error e => exact Gives.pure hs
        | ok v => exact ih hrest hs

theorem streamFrom (backend : Backend) (client : Client) :
    Gives C (Orchestrator.streamFrom req backend client) fun r =>
      ∀ u, r.1.usage = some u → Fair u.tokensIn u.tokensOut := by
  have hnone : ∀ u, ({} : Consumed).usage = some u → Fair u.tokensIn u.tokensOut :=
    fun _ heq => absurd heq (by simp)
  refine Gives.perform_attempt (h.plain _ rfl) fun r _ => ?_
  cases r with
  | error e => exact Gives.pure hnone
  | ok u =>
    refine Gives.bind (R := fun r : Consumed × Except Raised Unit =>
      ∀ u, r.1.usage = some u → Fair u.tokensIn u.tokensOut) ?_ ?_
    · refine Gives.perform_attempt (h.plain _ rfl) fun r hr => ?_
      cases r with
      | error e => exact Gives.pure hnone
      | ok events => exact h.consume client (h.streamed _ _ _ events hr) hnone
    · rintro ⟨s, ended⟩ hs
      refine Gives.perform_attempt (h.plain _ rfl) fun r _ => ?_
      cases r <;> exact Gives.pure hs

theorem streamWith (start : Time) (reservation : RateLimit.ReservationId) {backend : Backend}
    (hknown : Known backend) (client : Client) :
    Gives C (Orchestrator.streamWith gw req start reservation backend client) fun _ => True := by
  refine (h.streamFrom backend client).bind ?_
  rintro ⟨s, ended⟩ hs
  cases ended with
  | error e =>
    dsimp only
    split
    · refine Gives.perform (h.plain _ rfl) fun _ _ => ?_
      split
      · exact Gives.throw
      · exact Gives.pure trivial
    · exact Gives.throw
  | ok u =>
    have hfair : Fair ((s.usage.map Usage.tokensIn).getD 0)
        ((s.usage.map Usage.tokensOut).getD 0) := by
      cases husage : s.usage with
      | none => exact h.silent
      | some u => exact hs u husage
    refine (h.settle start reservation hknown _ hfair _).bind ?_
    refine fun latency _ => (h.incr _ _).bind fun _ _ => ?_
    exact Gives.perform (h.plain _ rfl) fun _ _ => Gives.pure trivial

theorem handleStream : Gives C (Orchestrator.handleStream gw req) fun _ => True := by
  refine Gives.perform (h.plain _ rfl) fun start _ =>
    Gives.perform h.reserve fun reservation _ => ?_
  cases reservation with
  | none => exact Gives.throw
  | some reservation =>
    refine h.lookup.bind fun hit hfair => ?_
    cases hit with
    | some hit =>
      refine (h.chargeHit start reservation (hfair hit rfl)).bind fun _ _ => ?_
      exact Gives.perform (h.plain _ rfl) fun _ _ =>
        Gives.call (h.plain _ rfl) fun _ _ => trivial
    | none =>
      refine Gives.perform (h.plain _ rfl) fun remaining hoffered => ?_
      split
      · exact Gives.throw
      · refine h.walk (fun _ client hknown => h.streamWith start reservation hknown client)
          (fun err => ?_) (h.offered _ _ hoffered) none
        exact (h.logUnavailable start).bind fun _ _ => Gives.throw

end Upkeep

end InferenceGateway.Orchestrator
