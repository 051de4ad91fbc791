import InferenceGateway.Cache.Exact
import InferenceGateway.Library.Json

/-!
# The text of a cached answer

L1 stores a JSON text. `put` dumps an object of three fields and `get` loads it and reads the
fields, which raises if the text is no such object.
-/
namespace InferenceGateway.Cache
open Library

/-- `json.dumps` and `json.loads`. -/
structure JsonText where
  dumps : Json → String
  loads : String → Option Json
  loads_dumps : ∀ j, loads (dumps j) = some j

/-- One writer and reader, with a blank after commas and colons. -/
def JsonText.plain : JsonText where
  dumps j := String.ofList (j.write [' '])
  loads := Json.read
  loads_dumps := Json.read_write fun _ hc => List.mem_singleton.mp hc

namespace Payload

def toJson (payload : Payload) : Json :=
  .obj [("content", .str payload.content), ("tokens_in", .int payload.tokensIn),
    ("tokens_out", .int payload.tokensOut)]

def ofJson? (data : Json) : Option Payload := do
  return ⟨← (← data.field? "content").str?, ← (← data.field? "tokens_in").int?,
    ← (← data.field? "tokens_out").int?⟩

theorem ofJson?_toJson (payload : Payload) : ofJson? payload.toJson = some payload := by
  simp [ofJson?, toJson, Json.field?, Json.str?, Json.int?]

variable (json : JsonText)

def dumps (payload : Payload) : String := json.dumps payload.toJson

def loads? (text : String) : Option Payload := (json.loads text).bind ofJson?

@[simp] theorem loads?_dumps (payload : Payload) :
    loads? json (payload.dumps json) = some payload := by
  simp [loads?, dumps, json.loads_dumps, ofJson?_toJson]

end Payload

/-- The hit that `ExactCache.get` makes of a payload. -/
def Payload.hit (payload : Payload) : CacheHit :=
  ⟨payload.content, payload.tokensIn, payload.tokensOut, .l1⟩

end InferenceGateway.Cache
