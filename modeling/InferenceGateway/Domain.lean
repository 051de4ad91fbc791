import Mathlib.Algebra.Order.Ring.Rat

/-!
# Domain records

The records that the cache, the resilience layer, the routing policies and the request
pipeline exchange. A row that reaches the code has passed the constraints of its table,
so those constraints are fields of the record.
-/
namespace InferenceGateway

/-- Clock readings and durations, in seconds. -/
abbrev Time := ℚ

abbrev Uuid := Nat

inductive Role where
  | system | user | assistant
  deriving DecidableEq, Repr

def Role.value : Role → String
  | .system => "system"
  | .user => "user"
  | .assistant => "assistant"

structure ChatMessage where
  role : Role
  content : String
  deriving DecidableEq, Repr

inductive BackendType where
  | ollama | hosted
  deriving DecidableEq, Repr

inductive CacheTier where
  | l1 | l2
  deriving DecidableEq, Repr

def CacheTier.value : CacheTier → String
  | .l1 => "l1"
  | .l2 => "l2"

/-- A row of `api_key`: both quantities are `Integer` columns with a `CHECK (… > 0)`. -/
structure ApiKey where
  id : Uuid
  tokenBudget : Int
  windowSeconds : Int
  tokenBudget_pos : 0 < tokenBudget
  tokenBudget_le : tokenBudget ≤ 2147483647
  windowSeconds_pos : 0 < windowSeconds
  windowSeconds_le : windowSeconds ≤ 2147483647

/-- A row of `backend`. -/
structure Backend where
  id : Uuid
  name : String
  type : BackendType
  endpoint : String
  model : String
  priority : Int
  enabled : Bool
  costPer1kIn : ℚ
  costPer1kOut : ℚ
  deriving DecidableEq, Repr

abbrev Embedding := List ℚ

/-- A row of `cache_entry`. -/
structure CacheEntry where
  model : String
  promptHash : String
  embedding : Embedding
  response : String
  tokensIn : Int
  tokensOut : Int
  deriving DecidableEq, Repr

/-- The identity of a `ModelClient` object. -/
structure Client where
  serial : Nat
  deriving DecidableEq, Repr

/-- What a cache tier answers with. -/
structure CacheHit where
  content : String
  tokensIn : Int
  tokensOut : Int
  tier : CacheTier
  deriving DecidableEq, Repr

end InferenceGateway
