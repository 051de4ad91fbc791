import InferenceGateway.Persistence.Repositories
import InferenceGateway.Library.Program
import InferenceGateway.Resilience.RateLimit

/-!
# What the pipeline asks of the world around it

The handlers touch Redis, the database, the registry, the routing policy, the clients and
the clock one operation at a time, and other requests run between any two of them. `Op`
lists these operations and `Ret` what each returns; each may raise instead.
-/
namespace InferenceGateway.Orchestrator
open Library Persistence Resilience

/-- An exception. `cancelled` is the one that `except Exception` does not catch. -/
inductive Raised where
  | rateLimitExceeded
  | noBackendsAvailable
  | allBackendsUnavailable (lastError : Option Raised)
  | failure (text : String)
  | cancelled

/-- What `except Exception` catches. -/
def Raised.isException : Raised → Bool
  | .cancelled => false
  | _ => true

structure Completion where
  content : String
  tokensIn : Int
  tokensOut : Int
  deriving DecidableEq, Repr

structure Usage where
  tokensIn : Int
  tokensOut : Int
  finishReason : Option String
  deriving DecidableEq, Repr

inductive StreamEvent where
  | text (chunk : String)
  | usage (u : Usage)
  deriving DecidableEq, Repr

structure CompletionResult where
  content : String
  model : String
  tokensIn : Int
  tokensOut : Int
  finishReason : Option String
  cacheTier : Option CacheTier
  backendName : Option String
  deriving DecidableEq, Repr

/-- What `handle_stream` yields. -/
inductive Yielded where
  | text (chunk : String)
  | result (r : CompletionResult)
  deriving DecidableEq, Repr

structure RequestFeatures where
  model : String
  estTokensIn : Int
  complexity : ℚ
  deriving DecidableEq, Repr

/-- A row of `request_log`, with the defaults of `RequestLogRepo.insert`. -/
structure RequestLog where
  apiKeyId : Uuid
  model : String
  latencyMs : Int
  status : Int
  backendId : Option Uuid := none
  cacheTier : Option String := none
  tokensIn : Int := 0
  tokensOut : Int := 0
  cost : ℚ := 0
  finishReason : Option String := none
  deriving DecidableEq, Repr

inductive Op where
  | perfCounter
  | reserve (apiKeyId : Uuid) (estTokens budget windowSeconds : Int)
  | reconcile (apiKeyId : Uuid) (reservation : RateLimit.ReservationId) (actualTokens : Int)
  | exactGet (model promptHash : String)
  | exactPut (model promptHash content : String) (tokensIn tokensOut : Int)
  | embed (text : String)
  | findSimilar (model : String) (embedding : Embedding)
  | insertEntry (entry : CacheEntry)
  | candidates (model : String)
  | select (candidates : List Backend) (features : RequestFeatures)
  | allow (backendId : Uuid)
  | record (backendId : Uuid) (ok : Bool)
  /-- Enter and leave the semaphore of a backend. -/
  | acquire (backendId : Uuid)
  | release (backendId : Uuid)
  | complete (client : Client) (messages : List ChatMessage) (model : String)
  /-- Open a stream. The reply is the list of events it will produce if it is read to its
  end; `anext` waits for the next of them, or for the end, and may raise at any point. -/
  | stream (client : Client) (messages : List ChatMessage) (model : String)
  | anext (client : Client)
  /-- `yield` to the consumer of a stream, up to its asking for the next event. -/
  | emit (event : Yielded)
  | lpush (backendId : Uuid) (latencyMs : Int)
  | ltrim (backendId : Uuid)
  | insertLog (row : RequestLog)
  | incr (metric : String) (labels : List (String × String))
  | observe (metric : String) (value : ℚ) (labels : List (String × String))
  /-- The committed transaction of an upsert. -/
  | upsert (body : BackendUpsert)
  | listBackends
  | closeSession
  /-- The part of a reload without awaits: build a client for each enabled row, swap the
  maps, return the old clients. -/
  | install (backends : List Backend)
  | aclose (client : Client)

abbrev Ret : Op → Type
  | .perfCounter => Time
  | .reserve .. => Option RateLimit.ReservationId
  | .exactGet .. => Option CacheHit
  | .embed _ => Option Embedding
  | .findSimilar .. => Option CacheEntry
  | .candidates _ => List (Backend × Client)
  | .select .. => Backend
  | .allow _ => Bool
  | .complete .. => Completion
  | .stream .. => List StreamEvent
  | .upsert _ => Backend
  | .listBackends => List Backend
  | .install _ => List Client
  | _ => Unit

abbrev Reply (op : Op) := Except Raised (Ret op)

abbrev Event := Program.Event Op Reply

abbrev Action := Library.Action Raised Op Ret

abbrev call (op : Op) : Action (Ret op) := Library.Action.call op

end InferenceGateway.Orchestrator
