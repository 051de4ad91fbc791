import InferenceGateway.Backends.Registry
import InferenceGateway.Cache.Exact
import InferenceGateway.Library.Interleaving
import InferenceGateway.Orchestrator.Pipeline

/-!
# The shared world

All requests of a process share both cache tiers, the backend table and the registry.
`Handles` says how these answer an operation; any operation may raise, and what is not
part of the world answers anything. Requests, upserts and reloads are interleaved
operation by operation.
-/
namespace InferenceGateway.Orchestrator
open Library Backends Cache Persistence Redis

structure World where
  l1 : Strings Payload
  entries : List CacheEntry
  table : List Backend
  registry : BackendRegistry

/-- The configuration of the cache tiers, with pgvector's cosine distance. -/
structure TwoTierCache where
  l1 : ExactCache
  similarityThreshold : ℚ
  cosineDistance : Embedding → Embedding → Option ℚ

/-! ## Admin requests -/

def acloseAll : List Client → Action Unit
  | [] => return ()
  | client :: clients => do
    call (.aclose client)
    acloseAll clients

/-- `BackendRegistry.reload`. -/
def reload : Action Unit := do
  let backends ← call .listBackends
  call .closeSession
  let oldClients ← call (.install backends)
  acloseAll oldClients

/-- `POST /admin/backends`. -/
def upsertBackend (body : BackendUpsert) : Action Backend := do
  let backend ← call (.upsert body)
  reload
  return backend

/-- The operations of admin requests. -/
def AdminOp : Op → Prop
  | .upsert _ | .listBackends | .closeSession | .install _ | .aclose _ => True
  | _ => False

/-! ## The answers of the world -/

variable (cache : TwoTierCache)

/-- The operation can get this reply and leave this world. A write that raises may have
taken effect or not. -/
def Handles (w : World) : (op : Op) → Reply op → World → Prop
  | .exactGet model promptHash, r, w' => w' = w ∧
      ((∃ now, r = .ok (ExactCache.get w.l1 now model promptHash)) ∨ ∃ e, r = .error e)
  | .exactPut model promptHash content tokensIn tokensOut, r, w' =>
      (∃ now, w' = { w with
        l1 := cache.l1.put w.l1 now model promptHash content tokensIn tokensOut }) ∨
      (w' = w ∧ ∃ e, r = .error e)
  | .findSimilar model embedding, r, w' => w' = w ∧
      ((∃ rows ⊆ w.entries, r = .ok (SemanticCacheRepo.findSimilar cache.cosineDistance
        cache.similarityThreshold rows model embedding)) ∨ ∃ e, r = .error e)
  | .insertEntry entry, r, w' =>
      w' = { w with entries := w.entries ++ [entry] } ∨ (w' = w ∧ ∃ e, r = .error e)
  | .candidates model, r, w' => w' = w ∧
      ((∃ pairs, w.registry.candidates model = some pairs ∧ r = .ok pairs) ∨ ∃ e, r = .error e)
  | .upsert body, r, w' =>
      (∃ uuid4, w' = { w with table := (BackendRepo.upsert w.table body uuid4).1 } ∧
        r = .ok (BackendRepo.upsert w.table body uuid4).2) ∨
      (w' = w ∧ ∃ e, r = .error e)
  | .listBackends, r, w' => w' = w ∧
      ((∃ rows, rows.Perm w.table ∧ r = .ok rows) ∨ ∃ e, r = .error e)
  | .install backends, r, w' => ∃ clientFactory : Backend → Except Raised Client,
      match w.registry.install clientFactory backends with
      | .ok (registry, oldClients) => w' = { w with registry } ∧ r = .ok oldClients
      | .error e => w' = w ∧ r = .error e
  | _, _, w' => w' = w

/-- What happens without any of the tasks: cached answers expire or are evicted, other
processes and transactions change the backend table, and the registry is closed. -/
inductive Drift (w : World) : World → Prop
  | expire (gone : String → Bool) :
      Drift w { w with l1 := fun key => if gone key then none else w.l1 key }
  | evict (entries : List CacheEntry) (h : entries ⊆ w.entries) : Drift w { w with entries }
  | table (table : List Backend) : Drift w { w with table }
  | aclose : Drift w { w with registry := {} }

/-! ## The system -/

/-- What a task is for: a request for a model, or an admin request. -/
inductive Purpose where
  | request (model : String)
  | admin
  deriving DecidableEq, Repr

/-- How a task ends. -/
inductive Outcome where
  | completed (r : Except Raised CompletionResult)
  | streamed (r : Except Raised Unit)
  | administered

/-- The tasks that may start: chat requests, upserts and reloads. -/
inductive Starts (gw : RequestOrchestrator) : Purpose → Program Op Reply Outcome → Prop
  | complete (req : ChatRequest) :
      Starts gw (.request req.model) (Outcome.completed <$> (handleComplete gw req).run)
  | stream (req : ChatRequest) :
      Starts gw (.request req.model) (Outcome.streamed <$> (handleStream gw req).run)
  | upsert (body : BackendUpsert) :
      Starts gw .admin ((fun _ => .administered) <$> (upsertBackend body).run)
  | reload : Starts gw .admin ((fun _ => .administered) <$> reload.run)

abbrev History := List (Purpose × Event)

/-- The gateway, from empty caches and an empty registry. -/
def gateway (gw : RequestOrchestrator) (table : List Backend) :
    Pool.System Purpose World Op Reply Outcome where
  initial := ⟨Strings.empty, [], table, {}⟩
  starts := Starts gw
  handle := Handles cache
  drift := Drift

end InferenceGateway.Orchestrator
