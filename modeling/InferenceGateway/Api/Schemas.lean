import InferenceGateway.Domain
import InferenceGateway.Library.Json

/-!
# What the API exchanges

The models of the requests, of the chunks of a streamed answer and of an answer in one piece.
`toJson` has the fields in the order of their declaration, and null for what is absent.
-/
namespace InferenceGateway.Api
open Library

structure ChatMessageIn where
  role : Role
  content : String

structure ChatCompletionRequest where
  model : String
  messages : List ChatMessageIn

structure ChatCompletionMessageOut where
  role : String := "assistant"
  content : String

structure ChatCompletionChoice where
  index : Int := 0
  message : ChatCompletionMessageOut
  finishReason : Option String

structure ChatCompletionUsage where
  promptTokens : Int
  completionTokens : Int
  totalTokens : Int
  deriving DecidableEq, Repr

structure ChatCompletionResponse where
  id : String
  object : String := "chat.completion"
  created : Int
  model : String
  choices : List ChatCompletionChoice
  usage : ChatCompletionUsage
  cacheTier : Option String := none

structure ChatCompletionChunkDelta where
  content : Option String := none

structure ChatCompletionChunkChoice where
  index : Int := 0
  delta : ChatCompletionChunkDelta
  finishReason : Option String := none

structure ChatCompletionChunk where
  id : String
  object : String := "chat.completion.chunk"
  created : Int
  model : String
  choices : List ChatCompletionChunkChoice
  usage : Option ChatCompletionUsage := none

/-- The JSON of an optional field. -/
def orNull {α : Type} (toJson : α → Json) (value : Option α) : Json := (value.map toJson).getD .null

def ChatCompletionUsage.toJson (usage : ChatCompletionUsage) : Json :=
  .obj [("prompt_tokens", .int usage.promptTokens),
    ("completion_tokens", .int usage.completionTokens), ("total_tokens", .int usage.totalTokens)]

def ChatCompletionMessageOut.toJson (message : ChatCompletionMessageOut) : Json :=
  .obj [("role", .str message.role), ("content", .str message.content)]

def ChatCompletionChoice.toJson (choice : ChatCompletionChoice) : Json :=
  .obj [("index", .int choice.index), ("message", choice.message.toJson),
    ("finish_reason", orNull .str choice.finishReason)]

def ChatCompletionResponse.toJson (response : ChatCompletionResponse) : Json :=
  .obj [("id", .str response.id), ("object", .str response.object),
    ("created", .int response.created), ("model", .str response.model),
    ("choices", .arr (response.choices.map fun choice => choice.toJson)),
    ("usage", response.usage.toJson), ("cache_tier", orNull .str response.cacheTier)]

def ChatCompletionChunkDelta.toJson (delta : ChatCompletionChunkDelta) : Json :=
  .obj [("content", orNull .str delta.content)]

def ChatCompletionChunkChoice.toJson (choice : ChatCompletionChunkChoice) : Json :=
  .obj [("index", .int choice.index), ("delta", choice.delta.toJson),
    ("finish_reason", orNull .str choice.finishReason)]

def ChatCompletionChunk.toJson (chunk : ChatCompletionChunk) : Json :=
  .obj [("id", .str chunk.id), ("object", .str chunk.object), ("created", .int chunk.created),
    ("model", .str chunk.model), ("choices", .arr (chunk.choices.map fun choice => choice.toJson)),
    ("usage", orNull (fun usage => usage.toJson) chunk.usage)]

end InferenceGateway.Api
