import InferenceGateway.Api.Schemas
import InferenceGateway.Library.EventStream
import InferenceGateway.Orchestrator.Bookkeeping
import InferenceGateway.Orchestrator.Evaluation
import InferenceGateway.Orchestrator.StreamOutput

/-!
# Streamed answers

`event_stream` sends what `handle_stream` yields as an event stream: a frame for each text,
one for the result or for the error that the API answers, and one that says `[DONE]`. A client
that reads the body until then has every text again, whatever characters are in it, provided
that the JSON serialisers leave no line break and that parsing undoes them.
-/
namespace InferenceGateway.Api
open Library Library.EventStream Orchestrator

/-- `model_dump_json`, `json.dumps`, and the parser of the client. -/
structure JsonLibrary where
  modelDumpJson : ChatCompletionChunk → String
  dumps : Json → String
  loads : String → Option Json

/-- What `handle_stream` is asked. -/
def ChatCompletionRequest.chatRequest (body : ChatCompletionRequest) (apiKey : ApiKey)
    (bypassCache : Bool) : ChatRequest :=
  ⟨apiKey, body.model, body.messages.map fun m => ⟨m.role, m.content⟩, bypassCache⟩

def textChunk (completionId : String) (created : Int) (model event : String) :
    ChatCompletionChunk where
  id := completionId
  created := created
  model := model
  choices := [{ delta := { content := some event } }]

def finalChunk (completionId : String) (created : Int) (event : CompletionResult) :
    ChatCompletionChunk where
  id := completionId
  created := created
  model := event.model
  choices := [{ delta := {}, finishReason := event.finishReason }]
  usage := some ⟨event.tokensIn, event.tokensOut, event.tokensIn + event.tokensOut⟩

def chunk (completionId : String) (created : Int) (model : String) :
    Yielded → ChatCompletionChunk
  | .text event => textChunk completionId created model event
  | .result event => finalChunk completionId created event

def errorJson (message type : String) : Json :=
  .obj [("error", .obj [("message", .str message), ("type", .str type)])]

/-- The errors that the API answers. -/
def answered : Raised → Option (String × String)
  | .rateLimitExceeded => some ("rate limit exceeded", "rate_limit")
  | .noBackendsAvailable | .allBackendsUnavailable _ =>
    some ("no backend available", "unavailable")
  | .failure _ | .cancelled => none

def dataFrame (payload : String) : String := "data: " ++ payload ++ "\n\n"

/-- `event_stream`: what it yields, and how it ends, when `handle_stream` yields these events
and ends like this. -/
def eventStream (lib : JsonLibrary) (completionId : String) (created : Int) (model : String)
    (events : List Yielded) (ended : Except Raised Unit) : List String × Except Raised Unit :=
  let sent := events.map fun event =>
    dataFrame (lib.modelDumpJson (chunk completionId created model event))
  match ended with
  | .ok _ => (sent ++ [dataFrame "[DONE]"], .ok ())
  | .error e =>
    match answered e with
    | some (message, type) =>
      (sent ++ [dataFrame (lib.dumps (errorJson message type)), dataFrame "[DONE]"], .ok ())
    | none => (sent, .error e)

/-- The same while `handle_stream` runs, with these answers to its operations. -/
def streamedResponse (lib : JsonLibrary) (gw : RequestOrchestrator) (completionId : String)
    (created : Int) (apiKey : ApiKey) (bypassCache : Bool) (body : ChatCompletionRequest)
    (answer : List Event → (op : Op) → Reply op) : List String × Except Raised Unit :=
  let run := Program.run answer [] (handleStream gw (body.chatRequest apiKey bypassCache)).run
  eventStream lib completionId created body.model (output run.1) run.2

/-! ## What a client reads -/

/-- What a payload says. -/
inductive Said where
  | delta (model content : String)
  | usage (model : String) (usage : ChatCompletionUsage) (finishReason : Option String)
  | error (message type : String)
  deriving DecidableEq

def model? (j : Json) : Option String := do (← j.field? "model").str?

def choice? (j : Json) : Option Json := do (← j.field? "choices").item? 0

def content? (j : Json) : Option String := do
  (← (← (← choice? j).field? "delta").field? "content").str?

def usage? (j : Json) : Option ChatCompletionUsage := do
  let usage ← j.field? "usage"
  return ⟨← (← usage.field? "prompt_tokens").int?, ← (← usage.field? "completion_tokens").int?,
    ← (← usage.field? "total_tokens").int?⟩

def error? (error : Json) : Option Said := do
  return .error (← (← error.field? "message").str?) (← (← error.field? "type").str?)

def said? (j : Json) : Option Said :=
  match j.field? "error", content? j with
  | some error, _ => error? error
  | none, some content => do return .delta (← model? j) content
  | none, none => do
    return .usage (← model? j) (← usage? j) (← (← choice? j).field? "finish_reason").str?

def Said.content? : Said → Option String
  | .delta _ content => some content
  | _ => none

/-- The payloads of a body, up to the first that says `[DONE]`. -/
def received (body : String) : List String :=
  ((payloads body.toList).map String.ofList).takeWhile (· ≠ "[DONE]")

def JsonLibrary.meaning (lib : JsonLibrary) (payload : String) : Option Said :=
  (lib.loads payload).bind said?

/-- The contents of the deltas of a body. -/
def deltas (lib : JsonLibrary) (body : String) : List String :=
  (received body).filterMap fun payload => (lib.meaning payload).bind Said.content?

/-- What follows the texts: a result, or an error that the API answers. -/
inductive Terminal where
  | result (r : CompletionResult)
  | rateLimitExceeded
  | noBackendsAvailable
  | allBackendsUnavailable (lastError : Option Raised)

def Terminal.events : Terminal → List Yielded
  | .result r => [.result r]
  | _ => []

def Terminal.ended : Terminal → Except Raised Unit
  | .result _ => .ok ()
  | .rateLimitExceeded => .error .rateLimitExceeded
  | .noBackendsAvailable => .error .noBackendsAvailable
  | .allBackendsUnavailable lastError => .error (.allBackendsUnavailable lastError)

def Terminal.said : Terminal → Said
  | .result r =>
    .usage r.model ⟨r.tokensIn, r.tokensOut, r.tokensIn + r.tokensOut⟩ r.finishReason
  | .rateLimitExceeded => .error "rate limit exceeded" "rate_limit"
  | .noBackendsAvailable | .allBackendsUnavailable _ => .error "no backend available" "unavailable"

/-- A response that is complete: its blocks are one `data` line each, for every text, for what
follows the texts, and `[DONE]`, which no other one says; and what they say is found in them. -/
structure WholeResponse (lib : JsonLibrary) (model : String) (texts : List String)
    (terminal : Terminal) (sent : List String × Except Raised Unit) : Prop where
  ended : sent.2 = .ok ()
  frames : ∃ chunks : List String, ∃ last : String,
    blocks (String.join sent.1).toList =
      (chunks ++ [last, "[DONE]"]).map (fun payload => [dataLine payload.toList]) ∧
    chunks.map lib.meaning = texts.map (fun text => some (.delta model text)) ∧
    lib.meaning last = some terminal.said ∧ "[DONE]" ∉ chunks ++ [last]
  decoded : deltas lib (String.join sent.1) = texts

/-! ## Nothing is lost -/

/-- What is assumed of the serialisers: they leave no line break, and parsing undoes them.
`[DONE]` is no JSON. -/
structure JsonLibrary.Lossless (lib : JsonLibrary) : Prop where
  oneLine_modelDumpJson : ∀ chunk, OneLine (lib.modelDumpJson chunk).toList
  loads_modelDumpJson : ∀ chunk, lib.loads (lib.modelDumpJson chunk) = some chunk.toJson
  oneLine_dumps : ∀ message type, OneLine (lib.dumps (errorJson message type)).toList
  loads_dumps : ∀ message type,
    lib.loads (lib.dumps (errorJson message type)) = some (errorJson message type)
  loads_done : lib.loads "[DONE]" = none

@[simp] theorem said?_textChunk (completionId : String) (created : Int) (model text : String) :
    said? (textChunk completionId created model text).toJson = some (.delta model text) :=
  rfl

@[simp] theorem said?_finalChunk (completionId : String) (created : Int) (r : CompletionResult) :
    said? (finalChunk completionId created r).toJson = some (Terminal.result r).said := by
  obtain ⟨content, model, tokensIn, tokensOut, finishReason, cacheTier, backendName⟩ := r
  cases finishReason <;> rfl

@[simp] theorem said?_errorJson (message type : String) :
    said? (errorJson message type) = some (.error message type) :=
  rfl

theorem toList_dataFrame (payload : String) :
    (dataFrame payload).toList = frame payload.toList := by
  simp [dataFrame, frame, dataLine]

theorem toList_join_dataFrame (sent : List String) :
    (String.join (sent.map dataFrame)).toList = (sent.map String.toList).flatMap frame := by
  rw [String.toList_join, List.flatMap_map, List.flatMap_map]
  exact List.flatMap_congr fun payload _ => toList_dataFrame payload

section Lossless
variable {lib : JsonLibrary} {model last : String} {chunks texts : List String}
  {terminal : Terminal}

theorem WholeResponse.of_payloads (h : lib.loads "[DONE]" = none)
    (honeLine : ∀ payload ∈ chunks ++ [last], OneLine payload.toList)
    (hchunks : chunks.map lib.meaning = texts.map fun text => some (.delta model text))
    (hlast : lib.meaning last = some terminal.said) :
    WholeResponse lib model texts terminal
      ((chunks ++ [last, "[DONE]"]).map dataFrame, .ok ()) := by
  have hdone : lib.meaning "[DONE]" = none := by rw [JsonLibrary.meaning, h, Option.bind_none]
  have hmeanings : (chunks ++ [last]).map lib.meaning =
      texts.map (fun text => some (.delta model text)) ++ [some terminal.said] := by
    rw [List.map_append, hchunks, List.map_singleton, hlast]
  have hundone : "[DONE]" ∉ chunks ++ [last] := by
    intro hmem
    have hmem := List.mem_map_of_mem (f := lib.meaning) hmem
    rw [hmeanings, hdone] at hmem
    simp at hmem
  have hsent : ∀ payload ∈ (chunks ++ [last, "[DONE]"]).map String.toList, OneLine payload := by
    simp only [List.forall_mem_map, List.forall_mem_append, List.forall_mem_cons] at honeLine ⊢
    exact ⟨honeLine.1, honeLine.2.1, by decide, nofun⟩
  have hreceived : received (String.join ((chunks ++ [last, "[DONE]"]).map dataFrame)) =
      chunks ++ [last] := by
    have hother : ∀ payload ∈ chunks ++ [last], decide (payload ≠ "[DONE]") = true :=
      fun payload hpayload => decide_eq_true fun heq => hundone (heq ▸ hpayload)
    rw [received, toList_join_dataFrame, payloads_frames hsent, List.map_map,
      List.append_cons chunks last ["[DONE]"]]
    simp only [Function.comp_def, String.ofList_toList, List.map_id']
    rw [List.takeWhile_append_of_pos hother]
    simp
  refine ⟨rfl, ⟨chunks, last, ?_, hchunks, hlast, hundone⟩, ?_⟩
  · rw [toList_join_dataFrame, blocks_frames hsent, List.map_map]
    rfl
  · have hmapped : deltas lib (String.join ((chunks ++ [last, "[DONE]"]).map dataFrame)) =
        ((chunks ++ [last]).map lib.meaning).filterMap fun said => said.bind Said.content? := by
      rw [deltas, hreceived, List.filterMap_map]
      rfl
    have hterminal : terminal.said.content? = none := by cases terminal <;> rfl
    have hdeltas : ∀ text, (some (Said.delta model text)).bind Said.content? = some text :=
      fun _ => rfl
    rw [hmapped, hmeanings, List.filterMap_append, List.filterMap_map]
    simp only [Function.comp_def, hdeltas, List.filterMap_some]
    simp [hterminal]

/-- The payload of what follows the texts. -/
def lastPayload (lib : JsonLibrary) (completionId : String) (created : Int) : Terminal → String
  | .result r => lib.modelDumpJson (finalChunk completionId created r)
  | .rateLimitExceeded => lib.dumps (errorJson "rate limit exceeded" "rate_limit")
  | .noBackendsAvailable | .allBackendsUnavailable _ =>
    lib.dumps (errorJson "no backend available" "unavailable")

theorem eventStream_eq (lib : JsonLibrary) (completionId : String) (created : Int)
    (model : String) (texts : List String) (terminal : Terminal) :
    eventStream lib completionId created model (texts.map .text ++ terminal.events)
        terminal.ended =
      ((texts.map (fun text => lib.modelDumpJson (textChunk completionId created model text)) ++
        [lastPayload lib completionId created terminal, "[DONE]"]).map dataFrame, .ok ()) := by
  cases terminal <;>
    simp [eventStream, answered, Terminal.events, Terminal.ended, lastPayload, chunk]

theorem whole_eventStream (h : lib.Lossless) (completionId : String) (created : Int)
    (model : String) (texts : List String) (terminal : Terminal) :
    WholeResponse lib model texts terminal (eventStream lib completionId created model
      (texts.map .text ++ terminal.events) terminal.ended) := by
  rw [eventStream_eq]
  refine .of_payloads h.loads_done ?_ ?_ ?_
  · simp only [List.forall_mem_append, List.forall_mem_map, List.forall_mem_singleton]
    refine ⟨fun text _ => h.oneLine_modelDumpJson _, ?_⟩
    cases terminal with
    | result r => exact h.oneLine_modelDumpJson _
    | _ => exact h.oneLine_dumps _ _
  · rw [List.map_map]
    refine List.map_congr_left fun text _ => ?_
    simp [JsonLibrary.meaning, h.loads_modelDumpJson]
  · cases terminal with
    | result r => simp [JsonLibrary.meaning, lastPayload, h.loads_modelDumpJson]
    | _ => simp [JsonLibrary.meaning, lastPayload, h.loads_dumps, Terminal.said]

end Lossless

/-- An error that the API answers ends the texts like a terminal. -/
theorem Terminal.ended_of_answered {e : Raised} (h : answered e ≠ none) :
    ∃ terminal : Terminal, terminal.ended = .error e ∧ terminal.events = [] := by
  cases e with
  | rateLimitExceeded => exact ⟨.rateLimitExceeded, rfl, rfl⟩
  | noBackendsAvailable => exact ⟨.noBackendsAvailable, rfl, rfl⟩
  | allBackendsUnavailable lastError => exact ⟨.allBackendsUnavailable lastError, rfl, rfl⟩
  | _ => exact absurd rfl h

/-- What a run of `handle_stream` yields is texts and what follows them. -/
theorem exists_terminal {trace : List Event} {ended : Except Raised Unit}
    (h : WholeOutput trace ended) :
    (∃ e, ended = .error e ∧ answered e = none) ∨
      ∃ (texts : List String) (terminal : Terminal),
        output trace = texts.map .text ++ terminal.events ∧ ended = terminal.ended ∧
        ∀ r, terminal = .result r → String.join texts = r.content := by
  obtain ⟨texts, houtput⟩ := h
  cases ended with
  | ok u =>
    obtain ⟨r, houtput, hcontent⟩ := houtput
    refine .inr ⟨texts, .result r, houtput, rfl, fun r' hr' => ?_⟩
    obtain rfl := Terminal.result.inj hr'
    exact hcontent
  | error e =>
    by_cases hanswered : answered e = none
    · exact .inl ⟨e, rfl, hanswered⟩
    · obtain ⟨terminal, hterminal, hevents⟩ := Terminal.ended_of_answered hanswered
      refine .inr ⟨texts, terminal, ?_, hterminal.symm, fun r hr => ?_⟩
      · rw [hevents, List.append_nil]
        exact houtput
      · rw [hr] at hterminal
        exact nomatch hterminal

/-- Framing is lossless: of any texts and anything that follows them a client has the texts
again, in their order, one frame for what follows, and `[DONE]`. What `handle_stream` yields to
a consumer that reads on is such a sequence, unless it raises what the API does not answer;
and the texts of one that returns make up the content of its result. -/
theorem sse_lossless (lib : JsonLibrary) (hlib : lib.Lossless) (gw : RequestOrchestrator)
    (completionId : String) (created : Int) (apiKey : ApiKey) (bypassCache : Bool)
    (body : ChatCompletionRequest) (answer : List Event → (op : Op) → Reply op)
    (hanswer : ∀ past op, ReadsOn op (answer past op)) :
    (∀ (texts : List String) (terminal : Terminal),
      WholeResponse lib body.model texts terminal (eventStream lib completionId created body.model
        (texts.map .text ++ terminal.events) terminal.ended)) ∧
    let run := Program.run answer [] (handleStream gw (body.chatRequest apiKey bypassCache)).run
    let sent := streamedResponse lib gw completionId created apiKey bypassCache body answer
    (∃ e, run.2 = .error e ∧ answered e = none) ∨
      ∃ (texts : List String) (terminal : Terminal),
        output run.1 = texts.map .text ++ terminal.events ∧ run.2 = terminal.ended ∧
        WholeResponse lib body.model texts terminal sent ∧
        ∀ r, terminal = .result r → String.join (deltas lib (String.join sent.1)) = r.content := by
  have hall := whole_eventStream hlib completionId created body.model
  refine ⟨hall, ?_⟩
  intro run sent
  have hrun : WholeOutput run.1 run.2 :=
    Program.wp_run (output_handleStream gw (body.chatRequest apiKey bypassCache)) hanswer []
  obtain hunanswered | ⟨texts, terminal, houtput, hended, hcontent⟩ := exists_terminal hrun
  · exact .inl hunanswered
  · have hsent : sent = eventStream lib completionId created body.model (output run.1) run.2 := rfl
    have hwhole : WholeResponse lib body.model texts terminal sent := by
      rw [hsent, houtput, hended]
      exact hall texts terminal
    refine .inr ⟨texts, terminal, houtput, hended, hwhole, fun r hr => ?_⟩
    rw [hwhole.decoded]
    exact hcontent r hr

/-- Serialisers as the real ones: one without blanks and one with, and their parser. -/
def jsonLibrary : JsonLibrary where
  modelDumpJson chunk := String.ofList (chunk.toJson.write [])
  dumps j := String.ofList (j.write [' '])
  loads := Json.read

theorem oneLine_write {blank : List Char} (h : Json.Blank blank) (j : Json) :
    OneLine (String.ofList (j.write blank)).toList := by
  have hprintable := Json.printable_write h j
  rw [String.toList_ofList]
  exact ⟨fun hmem => absurd (hprintable _ hmem) (by decide),
    fun hmem => absurd (hprintable _ hmem) (by decide)⟩

theorem loads_write {blank : List Char} (h : Json.Blank blank) (j : Json) :
    jsonLibrary.loads (String.ofList (j.write blank)) = some j := Json.read_write h j

theorem loads_done : jsonLibrary.loads "[DONE]" = none := by
  have hscan : "[DONE]".toList.foldlM Json.Scan.step (.value []) = none := by decide
  have hread : Json.read "[DONE]" = none := by
    rw [Json.read, hscan]
    rfl
  exact hread

theorem jsonLibrary_lossless : jsonLibrary.Lossless := by
  have hnone : Json.Blank [] := by simp [Json.Blank]
  have hblank : Json.Blank [' '] := by simp [Json.Blank]
  constructor
  case oneLine_modelDumpJson => exact fun chunk => oneLine_write hnone chunk.toJson
  case loads_modelDumpJson => exact fun chunk => loads_write hnone chunk.toJson
  case oneLine_dumps => exact fun message type => oneLine_write hblank (errorJson message type)
  case loads_dumps => exact fun message type => loads_write hblank (errorJson message type)
  case loads_done => exact loads_done

/-- Texts that look like frames, or are empty. -/
def awkward : List String := ["a\n\nb", "", "data: [DONE]\n\n", "\r\n\"\\"]

def awkwardAnswer : (op : Op) → Reply op
  | .stream .. => .ok (awkward.map .text ++ [.usage ⟨1, 4, some "length"⟩])
  | op => failoverAnswer op

theorem readsOn_awkwardAnswer (op : Op) : ReadsOn op (awkwardAnswer op) := by
  cases op with
  | emit event => rfl
  | _ => trivial

def hiBody : ChatCompletionRequest := ⟨"m", [⟨.user, "hi"⟩]⟩

def text? : Yielded → Option String
  | .text chunk => some chunk
  | .result _ => none

theorem filterMap_text? (texts : List String) (terminal : Terminal) :
    (texts.map Yielded.text ++ terminal.events).filterMap text? = texts := by
  have hevents : terminal.events.filterMap text? = [] := by cases terminal <;> rfl
  rw [List.filterMap_append, hevents, List.append_nil, List.filterMap_map]
  exact List.filterMap_some

def awkwardRun : List Event × Except Raised Unit :=
  Program.run (fun _ => awkwardAnswer) [] (handleStream ⟨false, fun _ => "digest"⟩
    (hiBody.chatRequest Resilience.RateLimit.perMinute false)).run

theorem awkwardRun_returns :
    awkwardRun.2.isOk = true ∧ (output awkwardRun.1).filterMap text? = awkward := by
  unfold awkwardRun handleStream
  rw [walk_evaluates]
  decide +kernel

/-- The response to a request whose first candidate is down. -/
theorem sse_lossless_awkward :
    let sent := streamedResponse jsonLibrary ⟨false, fun _ => "digest"⟩ "chatcmpl-0" 0
      Resilience.RateLimit.perMinute false hiBody fun _ => awkwardAnswer
    sent.2 = .ok () ∧ deltas jsonLibrary (String.join sent.1) = awkward := by
  intro sent
  obtain ⟨hok, htexts⟩ := awkwardRun_returns
  obtain ⟨e, he, -⟩ | ⟨texts, terminal, houtput, -, hresponse, -⟩ :=
    (sse_lossless jsonLibrary jsonLibrary_lossless ⟨false, fun _ => "digest"⟩ "chatcmpl-0" 0
      Resilience.RateLimit.perMinute false hiBody (fun _ => awkwardAnswer)
      fun _ => readsOn_awkwardAnswer).2
  · have he : awkwardRun.2 = .error e := he
    rw [he] at hok
    exact nomatch hok
  · have houtput : output awkwardRun.1 = texts.map .text ++ terminal.events := houtput
    rw [houtput, filterMap_text?] at htexts
    exact ⟨hresponse.ended, hresponse.decoded.trans htexts⟩

end InferenceGateway.Api
