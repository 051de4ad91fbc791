import InferenceGateway.Api.ChatCompletions
import InferenceGateway.Api.Keys
import InferenceGateway.Orchestrator.Agreement

/-!
# The endpoint for chat completions

A request is let in by its API key and is answered in one JSON document or as an event stream. In
one piece an error has a status of its own; a stream has begun with `200` when it comes to know of
an error, and says it in a frame. Either way a client is told the same.
-/
namespace InferenceGateway.Api
open Library Library.EventStream Orchestrator

/-! ## Python's `repr` of a string -/

/-- `width` hexadecimal digits. -/
def hexDigits (width n : Nat) : List Char := (Nat.toDigits 16 n).leftpad width '0'

/-- A character between quotation marks. `isPrintable` is `str.isprintable` beyond ASCII. -/
def reprChar (isPrintable : Char → Bool) (quote c : Char) : List Char :=
  if c = quote ∨ c = '\\' then ['\\', c]
  else if c = '\t' then ['\\', 't']
  else if c = '\n' then ['\\', 'n']
  else if c = '\r' then ['\\', 'r']
  else if c.toNat < 32 ∨ c.toNat = 127 then '\\' :: 'x' :: hexDigits 2 c.toNat
  else if c.toNat < 127 ∨ isPrintable c = true then [c]
  else if c.toNat < 256 then '\\' :: 'x' :: hexDigits 2 c.toNat
  else if c.toNat < 65536 then '\\' :: 'u' :: hexDigits 4 c.toNat
  else '\\' :: 'U' :: hexDigits 8 c.toNat

def pythonRepr (isPrintable : Char → Bool) (s : String) : String :=
  let single := Char.ofNat 39
  let quote := if single ∈ s.toList ∧ '"' ∉ s.toList then '"' else single
  String.ofList (quote :: s.toList.flatMap (reprChar isPrintable quote) ++ [quote])

/-! ## The endpoint -/

/-- The libraries under the API: `render` is that of `JSONResponse`. -/
structure Server extends JsonLibrary where
  render : Json → String
  isPrintable : Char → Bool
  settings : KeySettings

/-- What is sent, piece by piece, and how sending it ends. -/
structure HttpResponse where
  statusCode : Nat
  headers : List (String × String) := []
  sent : List String
  ended : Except Raised Unit := .ok ()

structure RequestHeaders where
  xApiKey : Option String
  xCache : Option String

variable (server : Server)

def HttpException.response (e : HttpException) : HttpResponse where
  statusCode := e.statusCode
  headers := e.headers
  sent := [server.render (.obj [("detail", .str e.detail)])]

def chatCompletionResponse (completionId : String) (created : Int) (result : CompletionResult) :
    ChatCompletionResponse where
  id := completionId
  created := created
  model := result.model
  choices := [⟨0, { content := result.content }, result.finishReason⟩]
  usage := ⟨result.tokensIn, result.tokensOut, result.tokensIn + result.tokensOut⟩
  cacheTier := result.cacheTier.map CacheTier.value

/-- The errors of `handle_complete` that the API answers. -/
def httpException (model : String) : Raised → Option HttpException
  | .rateLimitExceeded => some ⟨429, "rate limit exceeded", [("Retry-After", "1")]⟩
  | .noBackendsAvailable =>
    some ⟨503, "no backend configured for model " ++ pythonRepr server.isPrintable model, []⟩
  | .allBackendsUnavailable _ =>
    some ⟨503, "all candidate backends failed or are circuit-open", []⟩
  | .failure _ | .cancelled => none

/-- The answer in one piece, when `handle_complete` ends like this. -/
def completeResponse (completionId : String) (created : Int) (model : String) :
    Except Raised CompletionResult → Except Raised HttpResponse
  | .ok result => .ok
      { statusCode := 200
        sent := [server.render (chatCompletionResponse completionId created result).toJson] }
  | .error e =>
    match httpException server model e with
    | some exception => .ok (exception.response server)
    | none => .error e

/-- `chat_completions`: the response, or what is raised before it, when `serve` answers the
handlers. -/
def chatCompletions {State : Type} (gw : RequestOrchestrator) (table : List Persistence.ApiKeyRow)
    (headers : RequestHeaders) (body : ChatCompletionRequest) (stream : Bool)
    (completionId : String) (created : Int) (serve : Program.Handler Op Reply (Connection × State))
    (s : Connection × State) : Except Raised HttpResponse × (Connection × State) :=
  match requireApiKey server.settings table headers.xApiKey with
  | .error e => (.ok (e.response server), s)
  | .ok apiKey =>
    let req := body.chatRequest apiKey (headers.xCache = some "no-store")
    if stream then
      let run := (handleStream gw req).exec serve s
      let (sent, ended) := eventStream server.toJsonLibrary completionId created body.model
        run.2.1.received run.1
      (.ok { statusCode := 200, sent, ended }, run.2)
    else
      let run := (handleComplete gw req).exec serve s
      (completeResponse server completionId created body.model run.1, run.2)

/-! ## What a client is told -/

/-- The content of a document, and its model, its usage and its finish reason. -/
def document? (j : Json) : Option (String × Said) := do
  let choice ← choice? j
  let content ← (← (← choice.field? "message").field? "content").str?
  return (content, .usage (← model? j) (← usage? j) (← choice.field? "finish_reason").str?)

/-- Whether the payloads of a body include one that says that this is all. -/
def Finished (body : String) : Prop := "[DONE]".toList ∈ payloads body.toList

/-- The two answers tell the same: that the request is refused, what the result is, or which of the
errors there was that the API answers; and where the one is no response the other breaks off. -/
inductive SameAnswer (model : String) :
    Except Raised HttpResponse → Except Raised HttpResponse → Prop
  | unauthorized {e : HttpException} (h : e.statusCode = 401) :
      SameAnswer model (.ok (e.response server)) (.ok (e.response server))
  | completed {plain streamed : HttpResponse} {texts : List String} {result : CompletionResult}
      (hplain : plain.statusCode = 200) (hstreamed : streamed.statusCode = 200)
      (hdocument : (server.loads (String.join plain.sent)).bind document? =
        some (String.join (deltas server.toJsonLibrary (String.join streamed.sent)),
          (Terminal.result result).said))
      (hwhole : WholeResponse server.toJsonLibrary model texts (.result result)
        (streamed.sent, streamed.ended)) :
      SameAnswer model (.ok plain) (.ok streamed)
  | unavailable {streamed : HttpResponse} {texts : List String} {terminal : Terminal} {e : Raised}
      {exception : HttpException} (hterminal : terminal.ended = .error e)
      (hexception : httpException server model e = some exception)
      (hstreamed : streamed.statusCode = 200)
      (hwhole : WholeResponse server.toJsonLibrary model texts terminal
        (streamed.sent, streamed.ended)) :
      SameAnswer model (.ok (exception.response server)) (.ok streamed)
  | failed {streamed : HttpResponse} {e e' : Raised} (he : answered e = none)
      (hstreamed : streamed.statusCode = 200) (hended : streamed.ended = .error e')
      (hunfinished : ¬ Finished (String.join streamed.sent)) :
      SameAnswer model (.error e) (.ok streamed)

/-- What is assumed of the libraries: in addition, a document can be read. -/
structure Server.Lossless : Prop extends JsonLibrary.Lossless server.toJsonLibrary where
  loads_render : ∀ response : ChatCompletionResponse,
    server.loads (server.render response.toJson) = some response.toJson

/-! ## Both forms tell the same -/

section Forms
variable {server} {State : Type}

theorem document?_chatCompletionResponse (completionId : String) (created : Int)
    (r : CompletionResult) : document? (chatCompletionResponse completionId created r).toJson =
      some (r.content, (Terminal.result r).said) := by
  obtain ⟨content, model, tokensIn, tokensOut, finishReason, cacheTier, backendName⟩ := r
  cases finishReason <;> rfl

theorem requireApiKey_statusCode {settings : KeySettings} {table : List Persistence.ApiKeyRow}
    {header : Option String} {e : HttpException}
    (h : requireApiKey settings table header = .error e) : e.statusCode = 401 := by
  simp only [requireApiKey] at h
  split at h
  · obtain rfl := Except.error.inj h
    rfl
  · split at h
    · obtain rfl := Except.error.inj h
      rfl
    · exact absurd h (by simp)

/-- The two ways to answer answer the same errors. -/
theorem httpException_eq_none_iff {model : String} {e : Raised} :
    httpException server model e = none ↔ answered e = none := by
  cases e <;> simp [httpException, answered]

/-- The consumer has received what the program has yielded. -/
theorem received_exec {α : Type} (clients : Clients State) (main : Program.Handler Op Reply State)
    (p : Program Op Reply α) (conn : Connection) (s : State) :
    (p.exec (clients.beside main) (conn, s)).2.1.received =
      conn.received ++ output (p.trace (clients.beside main) (conn, s)) := by
  have hstep : ∀ (conn : Connection) (s : State) (op : Op),
      (clients.beside main (conn, s) op).2.1.received =
        conn.received ++ output [⟨op, (clients.beside main (conn, s) op).1⟩] := by
    intro conn s op
    cases op with
    | emit event => rfl
    | anext client =>
      obtain ⟨waits, received⟩ := conn
      cases waits <;> exact (List.append_nil _).symm
    | _ => exact (List.append_nil _).symm
  induction p generalizing conn s with
  | pure a => exact (List.append_nil _).symm
  | perform op next ih =>
    have hrest := ih (clients.beside main (conn, s) op).1 (clients.beside main (conn, s) op).2.1
      (clients.beside main (conn, s) op).2.2
    rw [hstep, List.append_assoc, ← output_append] at hrest
    exact hrest

theorem wholeOutput_exec (clients : Clients State) (main : Program.Handler Op Reply State)
    (gw : RequestOrchestrator) (req : ChatRequest) (s : State) :
    let run := (handleStream gw req).exec (clients.beside main) (({} : Connection), s)
    ∃ trace, run.2.1.received = output trace ∧ WholeOutput trace run.1 := by
  intro run
  refine ⟨(handleStream gw req).run.trace (clients.beside main) (({} : Connection), s),
    received_exec clients main (handleStream gw req).run {} s, ?_⟩
  refine Program.wp_exec (output_handleStream gw req) (fun s op _ => ?_) (({} : Connection), s)
  cases op <;> trivial

/-- A stream that breaks off does not say that this is all. -/
theorem not_finished (h : server.Lossless) (completionId : String) (created : Int)
    (model : String) (texts : List String) {e : Raised} (he : answered e = none) :
    let sent := eventStream server.toJsonLibrary completionId created model (texts.map .text)
      (.error e)
    sent.2 = .error e ∧ ¬ Finished (String.join sent.1) := by
  intro sent
  have hsent : sent = ((texts.map fun text =>
      server.modelDumpJson (textChunk completionId created model text)).map dataFrame,
      .error e) := by
    simp [sent, eventStream, he, chunk]
  refine ⟨by rw [hsent], fun hfinished => ?_⟩
  rw [Finished, hsent, toList_join_dataFrame, payloads_frames ?_] at hfinished
  · simp only [List.map_map, List.mem_map] at hfinished
    obtain ⟨text, -, htext⟩ := hfinished
    have hdone : server.modelDumpJson (textChunk completionId created model text) = "[DONE]" :=
      String.toList_inj.mp htext
    have hloads := h.loads_modelDumpJson (textChunk completionId created model text)
    rw [hdone, h.loads_done] at hloads
    exact absurd hloads (by simp)
  · simp only [List.forall_mem_map]
    exact fun text _ => h.oneLine_modelDumpJson _

theorem eq_cancelled {e : Raised} (h : e.isException = false) : e = .cancelled := by
  cases e with
  | cancelled => rfl
  | _ => exact absurd h (by simp [Raised.isException])

/-- Errors that correspond are answered in the same way. -/
theorem httpException_eq {E : Raised → Raised → Prop} {e e' : Raised}
    (h : SameException E e e') (hkind : ∀ e e', E e e' → e.isException = e'.isException)
    (model : String) : httpException server model e = httpException server model e' := by
  cases h with
  | same => rfl
  | uncaught he hquiet =>
    have hquiet' : e'.isException = false := (hkind e e' he).symm.trans hquiet
    rw [eq_cancelled hquiet, eq_cancelled hquiet']
  | unavailable => rfl
  | stopped => rfl

/-- Handlers that end alike have the same answers. -/
theorem sameAnswer_of_endAlike (hlib : server.Lossless) {E : Raised → Raised → Prop}
    (hkind : ∀ e e', E e e' → e.isException = e'.isException) (completionId : String)
    (created : Int) (model : String) {plain : Except Raised CompletionResult × (Connection × State)}
    {streamed : Except Raised Unit × (Connection × State)} (h : EndAlike E plain streamed)
    (hwhole : ∃ trace, streamed.2.1.received = output trace ∧ WholeOutput trace streamed.1) :
    let body := eventStream server.toJsonLibrary completionId created model
      streamed.2.1.received streamed.1
    SameAnswer server model (completeResponse server completionId created model plain.1)
      (.ok { statusCode := 200, sent := body.1, ended := body.2 }) ∧
      streamed.2.2 = plain.2.2 := by
  intro body
  obtain ⟨trace, hreceived, hwhole⟩ := hwhole
  have hbody : body = eventStream server.toJsonLibrary completionId created model (output trace)
      streamed.1 := by
    rw [← hreceived]
  have hframes := whole_eventStream hlib.toLossless completionId created model
  cases h with
  | @returns result s u t hdelivers =>
    obtain ⟨⟨texts, htexts, hcontent⟩, hsame⟩ := hdelivers
    have hreturned : body = eventStream server.toJsonLibrary completionId created model
        (texts.map .text ++ (Terminal.result result).events) (Terminal.result result).ended := by
      rw [← show t.1.received = texts.map .text ++ (Terminal.result result).events from htexts]
      rfl
    have hwhole := hframes texts (.result result)
    rw [← hreturned] at hwhole
    refine ⟨.completed rfl rfl ?_ hwhole, hsame⟩
    have hplain : String.join [server.render (chatCompletionResponse completionId created
        result).toJson] = server.render (chatCompletionResponse completionId created
        result).toJson := by
      simp [String.join]
    rw [hwhole.decoded, hcontent, hplain, hlib.loads_render, Option.bind_some,
      document?_chatCompletionResponse]
  | @raises e s e' t hend =>
    obtain ⟨hexception, hsame⟩ := hend
    obtain ⟨texts, houtput⟩ := hwhole
    have hanswer : httpException server model e = httpException server model e' :=
      httpException_eq hexception hkind model
    have hraised : body = eventStream server.toJsonLibrary completionId created model
        (texts.map .text) (.error e') := by
      rw [hbody, houtput]
    by_cases hanswered : answered e' = none
    · have hnone : httpException server model e = none :=
        hanswer.trans (httpException_eq_none_iff.mpr hanswered)
      obtain ⟨hended, hunfinished⟩ := not_finished hlib completionId created model texts hanswered
      rw [← hraised] at hended hunfinished
      have hplain : completeResponse server completionId created model (.error e) = .error e := by
        simp [completeResponse, hnone]
      rw [hplain]
      exact ⟨.failed (httpException_eq_none_iff.mp hnone) rfl hended hunfinished, hsame⟩
    · obtain ⟨terminal, hterminal, hevents⟩ := Terminal.ended_of_answered hanswered
      have hwhole := hframes texts terminal
      rw [hevents, List.append_nil, hterminal, ← hraised] at hwhole
      have hsome : httpException server model e' ≠ none := fun hnone =>
        hanswered (httpException_eq_none_iff.mp hnone)
      obtain ⟨exception, hexception⟩ := Option.ne_none_iff_exists'.mp hsome
      have hplain : completeResponse server completionId created model (.error e) =
          .ok (exception.response server) := by
        simp [completeResponse, hanswer.trans hexception]
      rw [hplain]
      exact ⟨.unavailable hterminal hexception rfl hwhole, hsame⟩

end Forms

/-- For every request, against clients whose calls and streams correspond, the two forms of the
answer tell a client the same, and leave the same state. -/
theorem forms_agree {State : Type} (hlib : server.Lossless) (gw : RequestOrchestrator)
    (table : List Persistence.ApiKeyRow) (headers : RequestHeaders) (body : ChatCompletionRequest)
    (completionId : String) (created : Int) (clients : Clients State)
    (main : Program.Handler Op Reply State) (E : Raised → Raised → Prop)
    (h : Comparable clients main E) (s : State) :
    let plain := chatCompletions server gw table headers body false completionId created
      (clients.beside main) ({}, s)
    let streamed := chatCompletions server gw table headers body true completionId created
      (clients.beside main) ({}, s)
    SameAnswer server body.model plain.1 streamed.1 ∧ streamed.2.2 = plain.2.2 := by
  simp only [chatCompletions]
  cases hkey : requireApiKey server.settings table headers.xApiKey with
  | error e => exact ⟨.unauthorized (requireApiKey_statusCode hkey), rfl⟩
  | ok apiKey =>
    simp only [reduceIte, Bool.false_eq_true]
    generalize hreq : body.chatRequest apiKey (headers.xCache = some "no-store") = req
    have hpaired : Paired clients main E (Level Unheard) (handleComplete gw req)
        (handleStream gw req) _ := paired_handlers h
    have hjoint := hpaired ({}, s) ({}, s) ⟨rfl, rfl⟩
    exact sameAnswer_of_endAlike hlib h.kind completionId created body.model hjoint
      (wholeOutput_exec clients main gw req s)

/-- A server whose documents are written without blanks, with a hash that tells nothing. -/
def plainServer : Server where
  toJsonLibrary := jsonLibrary
  render j := String.ofList (j.write [])
  isPrintable _ := true
  settings := ⟨"admin", fun _ => "digest"⟩

theorem plainServer_lossless : plainServer.Lossless where
  toLossless := jsonLibrary_lossless
  loads_render response := loads_write (by simp [Json.Blank]) response.toJson

/-- A request with a key, when the first candidate refuses. -/
theorem forms_agree_failover :
    let main : Program.Handler Op Reply Nat := fun calls op => (failoverAnswer op, calls)
    let table : List Persistence.ApiKeyRow :=
      [{ apiKey := Resilience.RateLimit.perMinute, keyHash := "digest", name := "k" }]
    let respond := fun stream => chatCompletions plainServer ⟨true, fun _ => "digest"⟩ table
      ⟨some "sk-0", none⟩ hiBody stream "chatcmpl-0" 0 (refusingAndAnswering.beside main) ({}, 0)
    SameAnswer plainServer "m" (respond false).1 (respond true).1 ∧
      (respond true).2.2 = (respond false).2.2 := by
  refine forms_agree plainServer plainServer_lossless _ _ _ hiBody _ _ _ _ Eq
    ⟨fun calls client messages model => ?_, fun _ _ _ _ => rfl, fun _ _ => rfl, fun _ => rfl,
      fun _ _ h => congrArg _ h⟩ 0
  unfold refusingAndAnswering
  dsimp only
  split
  · exact .refuses rfl
  · exact @Corresponds.answers Eq ["o", "k"] 1 1 [] (by simp)

end InferenceGateway.Api
