import InferenceGateway.Domain
import Mathlib.Algebra.GroupWithZero.Nat

/-!
# What the pipeline derives from the messages

The estimates and the two flattenings of a message list that `orchestrator.py` computes
before anything else happens. Text is a sequence of code points, as in the source, and
`sha256` stands for the hexadecimal SHA-256 digest of a byte string.
-/
namespace InferenceGateway.Orchestrator

def totalChars (messages : List ChatMessage) : Nat :=
  (messages.map fun m => m.content.length).sum

/-- About four characters a token, and never less than one token. -/
def estimateTokens (messages : List ChatMessage) : Nat := max 1 (totalChars messages / 4)

/-- Length heuristic in `[0, 1]`. -/
def estimateComplexity (messages : List ChatMessage) : ℚ := min 1 (totalChars messages / 2000)

/-- The text whose digest identifies a conversation. -/
def promptRaw (model : String) (messages : List ChatMessage) : String :=
  model ++ "|" ++ "|".intercalate (messages.map fun m => m.role.value ++ ":" ++ m.content)

def promptHash (sha256 : ByteArray → String) (model : String) (messages : List ChatMessage) :
    String :=
  sha256 (promptRaw model messages).toUTF8

def promptText (messages : List ChatMessage) : String :=
  "\n".intercalate (messages.map ChatMessage.content)

example : promptText [⟨.system, "sys"⟩, ⟨.user, "usr"⟩] = "sys\nusr" := by decide

end InferenceGateway.Orchestrator
