import InferenceGateway.Orchestrator.Interface
import InferenceGateway.Orchestrator.Prompt

/-!
# The request pipeline

`handleComplete` and `handleStream` follow the handlers of `RequestOrchestrator` operation
by operation. The parts that both spell out in the same words are definitions of their
own: looking up and charging a cache hit, the failover loop, and the bookkeeping after a
successful call.
-/
namespace InferenceGateway.Orchestrator
open Library Resilience

/-- The configuration of the orchestrator: whether there is a metrics sink, and the
hexadecimal SHA-256 digest of a byte string. -/
structure RequestOrchestrator where
  metrics : Bool
  sha256 : ByteArray → String

structure ChatRequest where
  apiKey : ApiKey
  model : String
  messages : List ChatMessage
  bypassCache : Bool := false

/-- `TwoTierCache.get`: the exact tier, then, if there are embeddings, the semantic one. -/
def cacheGet (model promptHash promptText : String) : Action (Option CacheHit) := do
  match ← call (.exactGet model promptHash) with
  | some hit => return some hit
  | none =>
    match ← call (.embed promptText) with
    | none => return none
    | some embedding =>
      let entry ← call (.findSimilar model embedding)
      return entry.map fun e => ⟨e.response, e.tokensIn, e.tokensOut, .l2⟩

/-- `TwoTierCache.put`. -/
def cachePut (model promptHash promptText content : String) (tokensIn tokensOut : Int) :
    Action Unit := do
  call (.exactPut model promptHash content tokensIn tokensOut)
  match ← call (.embed promptText) with
  | none => return ()
  | some embedding =>
    call (.insertEntry ⟨model, promptHash, embedding, content, tokensIn, tokensOut⟩)

/-- `LatencyTracker.record`. -/
def latencyRecord (backendId : Uuid) (latencyMs : Int) : Action Unit := do
  call (.lpush backendId latencyMs)
  call (.ltrim backendId)

/-- `async with self._semaphore_for(backend_id)`. -/
def withSemaphore {α : Type} (backendId : Uuid) (body : Action α) : Action α := do
  call (.acquire backendId)
  let outcome ← Library.Action.attempt body
  call (.release backendId)
  match outcome with
  | .ok a => return a
  | .error e => throw e

/-- `int((time.perf_counter() - start) * 1000)`, in doubles. -/
def latencyMs (start now : Time) : Int := truncate (double (double (now - start) * 1000))

def cost (backend : Backend) (tokensIn tokensOut : Int) : ℚ :=
  backend.costPer1kIn * tokensIn / 1000 + backend.costPer1kOut * tokensOut / 1000

section Handlers
variable (gw : RequestOrchestrator) (req : ChatRequest)

def incr (metric : String) (labels : List (String × String)) : Action Unit :=
  if gw.metrics then call (.incr metric labels) else return ()

def observe (metric : String) (value : ℚ) (labels : List (String × String)) : Action Unit :=
  if gw.metrics then call (.observe metric value labels) else return ()

/-- The cache lookup, which a bypassed request leaves out. -/
def lookup : Action (Option CacheHit) :=
  if req.bypassCache then return none
  else cacheGet req.model (promptHash gw.sha256 req.model req.messages) (promptText req.messages)

/-- The write-back, which a bypassed request leaves out too. -/
def store (content : String) (tokensIn tokensOut : Int) : Action Unit :=
  if req.bypassCache then return ()
  else cachePut req.model (promptHash gw.sha256 req.model req.messages) (promptText req.messages)
    content tokensIn tokensOut

/-- What is done about a cache hit before it is returned. -/
def chargeHit (start : Time) (reservation : RateLimit.ReservationId) (hit : CacheHit) :
    Action Unit := do
  call (.reconcile req.apiKey.id reservation (hit.tokensIn + hit.tokensOut))
  let now ← call .perfCounter
  call (.insertLog {
    apiKeyId := req.apiKey.id, model := req.model, latencyMs := latencyMs start now, status := 200,
    cacheTier := some hit.tier.value, tokensIn := hit.tokensIn, tokensOut := hit.tokensOut })
  incr gw "gateway_cache_hits_total" [("tier", hit.tier.value)]

def hitResult (hit : CacheHit) : CompletionResult :=
  ⟨hit.content, req.model, hit.tokensIn, hit.tokensOut, none, some hit.tier, none⟩

/-- The bookkeeping after a successful call, up to its log row. Returns the latency. -/
def settle (start : Time) (reservation : RateLimit.ReservationId) (backend : Backend)
    (content : String) (tokensIn tokensOut : Int) (finishReason : Option String) :
    Action Int := do
  let now ← call .perfCounter
  let latency := latencyMs start now
  call (.record backend.id true)
  latencyRecord backend.id latency
  store gw req content tokensIn tokensOut
  call (.reconcile req.apiKey.id reservation (tokensIn + tokensOut))
  call (.insertLog {
    apiKeyId := req.apiKey.id, model := req.model, latencyMs := latency, status := 200,
    backendId := some backend.id, tokensIn, tokensOut, cost := cost backend tokensIn tokensOut,
    finishReason })
  return latency

def features : RequestFeatures :=
  ⟨req.model, estimateTokens req.messages, estimateComplexity req.messages⟩

/-! ## The failover loop -/

/-- How one pass through the body of the loop ends: `continue`, or `return`. -/
inductive Pass (α : Type) where
  | next (lastError : Option Raised)
  | done (a : α)

/-- `[pair for pair in remaining if pair[0].id != chosen.id]`. -/
def without (chosenId : Uuid) (remaining : List (Backend × Client)) : List (Backend × Client) :=
  remaining.filter fun pair => pair.1.id ≠ chosenId

/-- `next(pair for pair in remaining if pair[0].id == chosen.id)`. -/
def pairOf (chosenId : Uuid) (remaining : List (Backend × Client)) : Option (Backend × Client) :=
  remaining.find? fun pair => pair.1.id = chosenId

theorem length_without_lt {chosenId : Uuid} {remaining : List (Backend × Client)}
    {pair : Backend × Client} (h : pairOf chosenId remaining = some pair) :
    (without chosenId remaining).length < remaining.length := by
  refine List.length_filter_lt_length_iff_exists.mpr ⟨pair, List.mem_of_find?_eq_some h, ?_⟩
  simpa using List.find?_some h

/-- `while remaining`: ask the policy, take the chosen pair out, skip it if its breaker
says so, else run the body. `stopped` is what a choice outside the list turns into. -/
def walk {α : Type} (stopped : Raised) (body : Backend → Client → Action (Pass α))
    (exhausted : Option Raised → Action α) (remaining : List (Backend × Client))
    (lastError : Option Raised) : Action α :=
  if remaining = [] then exhausted lastError
  else do
    let chosen ← call (.select (remaining.map Prod.fst) (features req))
    match _h : pairOf chosen.id remaining with
    | none => throw stopped
    | some (backend, client) =>
      let rest := without chosen.id remaining
      if ← call (.allow backend.id) then
        match ← body backend client with
        | .next lastError => walk stopped body exhausted rest lastError
        | .done a => return a
      else walk stopped body exhausted rest lastError
termination_by remaining.length
decreasing_by all_goals exact length_without_lt _h

/-- What `handle_complete` does with an admitted candidate. -/
def completeWith (start : Time) (reservation : RateLimit.ReservationId) (backend : Backend)
    (client : Client) : Action (Pass CompletionResult) := do
  match ← Library.Action.attempt (withSemaphore backend.id
      (call (.complete client req.messages backend.model))) with
  | .error e =>
    if e.isException then
      call (.record backend.id false)
      incr gw "gateway_backend_calls_total" [("backend", backend.name), ("outcome", "error")]
      return .next (some e)
    else throw e
  | .ok completion =>
    let latency ← settle gw req start reservation backend completion.content completion.tokensIn
      completion.tokensOut (some "stop")
    incr gw "gateway_backend_calls_total" [("backend", backend.name), ("outcome", "ok")]
    observe gw "gateway_request_latency_seconds" (latency / 1000) [("cache", "miss")]
    return .done ⟨completion.content, backend.model, completion.tokensIn, completion.tokensOut,
      some "stop", none, some backend.name⟩

/-- What both handlers do once no candidate is left. -/
def logUnavailable (start : Time) : Action Unit := do
  let now ← call .perfCounter
  call (.insertLog {
    apiKeyId := req.apiKey.id, model := req.model, latencyMs := latencyMs start now,
    status := 503 })

def handleComplete : Action CompletionResult := do
  let start ← call .perfCounter
  match ← call (.reserve req.apiKey.id (estimateTokens req.messages) req.apiKey.tokenBudget
      req.apiKey.windowSeconds) with
  | none => throw .rateLimitExceeded
  | some reservation =>
    match ← lookup gw req with
    | some hit =>
      chargeHit gw req start reservation hit
      return hitResult req hit
    | none =>
      let remaining ← call (.candidates req.model)
      if remaining = [] then throw .noBackendsAvailable
      else
        walk req (.failure "coroutine raised StopIteration") (completeWith gw req start reservation)
          (fun lastError => do
            logUnavailable req start
            incr gw "gateway_failover_total" []
            throw (.allBackendsUnavailable lastError))
          remaining none

/-! ## Streaming -/

/-- What a candidate's stream has delivered so far. -/
structure Consumed where
  accumulated : List String := []
  usage : Option Usage := none
  anyYielded : Bool := false
  deriving DecidableEq, Repr

/-- The `async for` loop over the events of a stream. An exception leaves what has been
consumed behind, for the handler to look at. -/
def consume (client : Client) :
    List StreamEvent → Consumed → Action (Consumed × Except Raised Unit)
  | [], s => do
    let ended ← Library.Action.attempt (call (.anext client))
    return (s, ended)
  | event :: events, s => do
    match ← Library.Action.attempt (call (.anext client)) with
    | .error e => return (s, .error e)
    | .ok _ =>
      match event with
      | .usage u => consume client events { s with usage := some u }
      | .text chunk =>
        let s := { s with accumulated := s.accumulated ++ [chunk], anyYielded := true }
        match ← Library.Action.attempt (call (.emit (.text chunk))) with
        | .error e => return (s, .error e)
        | .ok _ => consume client events s

/-- The `try` block of the streaming loop. -/
def streamFrom (backend : Backend) (client : Client) : Action (Consumed × Except Raised Unit) := do
  match ← Library.Action.attempt (call (.acquire backend.id)) with
  | .error e => return ({}, .error e)
  | .ok _ =>
    let (s, ended) ← (do
      match ← Library.Action.attempt (call (.stream client req.messages backend.model)) with
      | .error e => return ({}, .error e)
      | .ok events => consume client events {})
    match ← Library.Action.attempt (call (.release backend.id)) with
    | .error e => return (s, .error e)
    | .ok _ => return (s, ended)

/-- What `handle_stream` does with an admitted candidate. -/
def streamWith (start : Time) (reservation : RateLimit.ReservationId) (backend : Backend)
    (client : Client) : Action (Pass Unit) := do
  let (s, ended) ← streamFrom req backend client
  match ended with
  | .error e =>
    if e.isException then
      call (.record backend.id false)
      if s.anyYielded then throw (.allBackendsUnavailable (some e))
      else return .next (some e)
    else throw e
  | .ok _ =>
    let content := String.join s.accumulated
    let tokensIn := (s.usage.map Usage.tokensIn).getD 0
    let tokensOut := (s.usage.map Usage.tokensOut).getD 0
    let finishReason := (s.usage.map Usage.finishReason).getD (some "stop")
    let _latency ← settle gw req start reservation backend content tokensIn tokensOut finishReason
    incr gw "gateway_backend_calls_total" [("backend", backend.name), ("outcome", "ok")]
    call (.emit (.result ⟨content, backend.model, tokensIn, tokensOut, finishReason, none,
      some backend.name⟩))
    return .done ()

def handleStream : Action Unit := do
  let start ← call .perfCounter
  match ← call (.reserve req.apiKey.id (estimateTokens req.messages) req.apiKey.tokenBudget
      req.apiKey.windowSeconds) with
  | none => throw .rateLimitExceeded
  | some reservation =>
    match ← lookup gw req with
    | some hit =>
      chargeHit gw req start reservation hit
      call (.emit (.text hit.content))
      call (.emit (.result (hitResult req hit)))
    | none =>
      let remaining ← call (.candidates req.model)
      if remaining = [] then throw .noBackendsAvailable
      else
        walk req (.failure "async generator raised StopIteration")
          (streamWith gw req start reservation)
          (fun lastError => do
            logUnavailable req start
            throw (.allBackendsUnavailable lastError))
          remaining none

end Handlers

end InferenceGateway.Orchestrator
