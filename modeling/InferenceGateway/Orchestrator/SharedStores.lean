import InferenceGateway.Cache.ExactText
import InferenceGateway.Orchestrator.Bookkeeping
import InferenceGateway.Orchestrator.CallOrder
import InferenceGateway.Orchestrator.Evaluation
import InferenceGateway.Orchestrator.Provenance
import InferenceGateway.Redis.Keyspace
import InferenceGateway.Resilience.BreakerHistory
import InferenceGateway.Resilience.RateLimitFrame

/-!
# The stores that all replicas share

Requests of any number of replicas are interleaved over one Redis database and one table of
cached answers. Each operation of a component sends one script or command to the key of that
component; the reply may be lost, whether it has run or not. Redis is the list of the commands
it has run, in their order. The registry, the policy, the semaphores, the backends and the
metrics belong to one process and answer anything here.
-/
namespace InferenceGateway.Orchestrator
open Library Cache Persistence Redis Resilience

/-- A script or command, with the part it works on. -/
abbrev Command := (p : Part) × p.Call

/-- What all replicas are configured with. -/
structure Replicas where
  settings : Redis.Settings
  cache : TwoTierCache
  json : JsonText
  latencyWindow : Int := 200

structure SharedStores where
  redis : List Command
  entries : List CacheEntry

namespace Replicas

variable (replicas : Replicas)

/-- The database after these commands. -/
def db (redis : List Command) : Keyspace := (keyspace replicas.settings).shared.state redis

/-- What the caller makes of the reply of the reserve script. -/
def reserved (id : RateLimit.ReservationId) :
    RateLimit.Reply → Except Raised (Option RateLimit.ReservationId)
  | .admitted => .ok (some id)
  | .raised => .error (.failure "ResponseError")
  | _ => .ok none

def allowed : Breaker.Reply → Except Raised Bool
  | .allowed verdict => .ok verdict
  | _ => .error (.failure "ResponseError")

/-- `ExactCache.get` after the reply of `GET`. -/
def loaded : StringReply → Except Raised (Option CacheHit)
  | .value none => .ok none
  | .value (some text) =>
    match Payload.loads? replicas.json text with
    | some payload => .ok (some payload.hit)
    | none => .error (.failure "JSONDecodeError")
  | _ => .error (.failure "ResponseError")

def set : StringReply → Except Raised Unit
  | .ok => .ok ()
  | _ => .error (.failure "ResponseError")

/-- The part of a prompt in L1. -/
def entry (model promptHash : String) : Part := .cache (model ++ ":" ++ promptHash)

/-- The command that an operation sends, with the clock readings and the reservation id that it
draws, and what it returns for the reply. -/
inductive Exchange : (op : Op) → (c : Command) → c.1.Reply → Reply op → Prop
  | reserve {apiKeyId : Uuid} {est budget window : Int} {served clock : Time}
      {id : RateLimit.ReservationId} {reply : RateLimit.Reply}
      (hbudget : budget = (replicas.settings.apiKeys apiKeyId).tokenBudget)
      (hwindow : window = (replicas.settings.apiKeys apiKeyId).windowSeconds) :
      Exchange (.reserve apiKeyId est budget window)
        ⟨.ratelimit apiKeyId, ⟨served, clock, .reserve id est⟩⟩ reply (reserved id reply)
  | reconcile {apiKeyId : Uuid} {id : RateLimit.ReservationId} {actual : Int}
      {served clock : Time} {reply : RateLimit.Reply} :
      Exchange (.reconcile apiKeyId id actual)
        ⟨.ratelimit apiKeyId, ⟨served, clock, .reconcile id actual⟩⟩ reply (.ok ())
  | allow {backendId : Uuid} {now : Time} {reply : Breaker.Reply} :
      Exchange (.allow backendId) ⟨.breaker backendId, .allow now⟩ reply (allowed reply)
  | record {backendId : Uuid} {ok : Bool} {now : Time} {reply : Breaker.Reply} :
      Exchange (.record backendId ok) ⟨.breaker backendId, .record ok now⟩ reply (.ok ())
  | lpush {backendId : Uuid} {latencyMs : Int} {reply : ListReply} :
      Exchange (.lpush backendId latencyMs) ⟨.latency backendId, .lpush latencyMs⟩ reply (.ok ())
  | ltrim {backendId : Uuid} {reply : ListReply} :
      Exchange (.ltrim backendId)
        ⟨.latency backendId, .ltrim 0 (replicas.latencyWindow - 1)⟩ reply (.ok ())
  | exactGet {model promptHash : String} {now : Time} {reply : StringReply} :
      Exchange (.exactGet model promptHash) ⟨entry model promptHash, .get now⟩ reply
        (replicas.loaded reply)
  | exactPut {model promptHash content : String} {tokensIn tokensOut : Int} {now : Time}
      {reply : StringReply} :
      Exchange (.exactPut model promptHash content tokensIn tokensOut)
        ⟨entry model promptHash, .setEx now
          (Payload.dumps replicas.json ⟨content, tokensIn, tokensOut⟩)
          replicas.cache.l1.ttlSeconds⟩ reply (set reply)

end Replicas

/-- The operations on the shared stores. -/
def Op.isShared : Op → Bool
  | .reserve .. | .reconcile .. | .allow _ | .record .. | .lpush .. | .ltrim _ | .exactGet ..
  | .exactPut .. | .findSimilar .. | .insertEntry _ => true
  | _ => false

open Replicas in
/-- The operation can get this reply and leave these stores, if the replies that do not come from
the stores are as assumed. -/
inductive StoresHandle (replicas : Replicas) (answers : (op : Op) → Reply op → Prop)
    (s : SharedStores) : (op : Op) → Reply op → SharedStores → Prop
  | served {op : Op} {c : Command} {reply : c.1.Reply} {r : Reply op}
      (hexchange : replicas.Exchange op c reply r)
      (hserve : ((keyspace replicas.settings).serve (replicas.db s.redis) c).1 =
        some ⟨c.1, reply⟩) :
      StoresHandle replicas answers s op r { s with redis := s.redis ++ [c] }
  /-- The command has run, but the caller does not learn it, or it has met a wrong type. -/
  | lost {op : Op} {c : Command} {reply : c.1.Reply} {r : Reply op} (e : Raised)
      (hexchange : replicas.Exchange op c reply r) :
      StoresHandle replicas answers s op (.error e) { s with redis := s.redis ++ [c] }
  | failed {op : Op} (e : Raised) : StoresHandle replicas answers s op (.error e) s
  | findSimilar {model : String} {embedding : Embedding} {rows : List CacheEntry}
      (hrows : rows ⊆ s.entries) :
      StoresHandle replicas answers s (.findSimilar model embedding)
        (.ok (SemanticCacheRepo.findSimilar replicas.cache.cosineDistance
          replicas.cache.similarityThreshold rows model embedding)) s
  | insertEntry {entry : CacheEntry} (r : Except Raised Unit) :
      StoresHandle replicas answers s (.insertEntry entry) r
        { s with entries := s.entries ++ [entry] }
  | elsewhere {op : Op} {r : Reply op} (hop : op.isShared = false) (hanswers : answers op r) :
      StoresHandle replicas answers s op r s

/-- Chat requests with the rows of their API keys, in any number of replicas, from empty
stores. -/
def sharing (replicas : Replicas) (answers : (op : Op) → Reply op → Prop)
    (gw : RequestOrchestrator) : Pool.System Nat SharedStores Op Reply Outcome where
  initial := ⟨[], []⟩
  starts _ p := ∃ req : ChatRequest,
    req.apiKey = replicas.settings.apiKeys req.apiKey.id ∧
    (p = Outcome.completed <$> (handleComplete gw req).run ∨
      p = Outcome.streamed <$> (handleStream gw req).run)
  handle := StoresHandle replicas answers
  drift _ _ := False

/-! ## What one operation does to a part -/

section Parts
variable {replicas : Replicas} {answers : (op : Op) → Reply op → Prop} {s s' : SharedStores}
  {op : Op} {r : Reply op}

namespace Replicas

/-- The state of a part after these commands. -/
def partState (replicas : Replicas) (p : Part) (redis : List Command) : p.State :=
  (p.service replicas.settings).state (Layout.callsOf p redis)

/-- A command that is answered is answered by its part. -/
theorem reply_eq {c : Command} {reply : c.1.Reply} {redis : List Command}
    (h : ((keyspace replicas.settings).serve (replicas.db redis) c).1 = some ⟨c.1, reply⟩) :
    reply = ((c.1.service replicas.settings).serve (replicas.partState c.1 redis) c.2).1 := by
  have hserve := congrArg Prod.fst
    (Layout.serve_of_stored ((keyspace replicas.settings).state_key redis c.1) c.2)
  obtain ⟨-, hreply⟩ := Sigma.mk.inj (Option.some.inj (h.symm.trans hserve))
  exact eq_of_heq hreply

/-- Commands are never refused for the type of what they find. -/
theorem serve_fst (redis : List Command) (c : Command) :
    ((keyspace replicas.settings).serve (replicas.db redis) c).1 =
      some ⟨c.1, ((c.1.service replicas.settings).serve (replicas.partState c.1 redis) c.2).1⟩ :=
  congrArg Prod.fst
    (Layout.serve_of_stored ((keyspace replicas.settings).state_key redis c.1) c.2)

end Replicas

/-- The operation has left Redis alone, or has run one command. If it returns, the reply of that
command is what it returns. -/
theorem StoresHandle.redis_cases (h : StoresHandle replicas answers s op r s') :
    (s'.redis = s.redis ∧ ((∃ e, r = .error e) ∨ op.isShared = false ∨
      (∃ model embedding, op = .findSimilar model embedding) ∨ ∃ entry, op = .insertEntry entry)) ∨
    ∃ c reply r', replicas.Exchange op c reply r' ∧ s'.redis = s.redis ++ [c] ∧ (r = r' ∧
        reply = ((c.1.service replicas.settings).serve (replicas.partState c.1 s.redis) c.2).1 ∨
        ∃ e, r = .error e) := by
  cases h with
  | served hexchange hserve =>
    exact .inr ⟨_, _, _, hexchange, rfl, .inl ⟨rfl, Replicas.reply_eq hserve⟩⟩
  | lost e hexchange => exact .inr ⟨_, _, _, hexchange, rfl, .inr ⟨e, rfl⟩⟩
  | failed e => exact .inl ⟨rfl, .inl ⟨e, rfl⟩⟩
  | findSimilar hrows => exact .inl ⟨rfl, .inr (.inr (.inl ⟨_, _, rfl⟩))⟩
  | insertEntry r => exact .inl ⟨rfl, .inr (.inr (.inr ⟨_, rfl⟩))⟩
  | elsewhere hop hanswers => exact .inl ⟨rfl, .inr (.inl hop)⟩

end Parts

/-! ## Deterministic stores -/

/-- The reply of a part to a command, which is added to those that Redis has run. -/
def Replicas.runCommand (replicas : Replicas) (s : SharedStores) (c : Command) :
    c.1.Reply × SharedStores :=
  (((c.1.service replicas.settings).serve (replicas.partState c.1 s.redis) c.2).1,
    { s with redis := s.redis ++ [c] })

open Replicas in
/-- How the stores answer at time zero, if no reply is lost. Each reservation gets the number of
commands before it as its id. -/
def answerStores (replicas : Replicas) (other : (op : Op) → Reply op) :
    Program.Handler Op Reply SharedStores := fun s op =>
  match op with
  | .reserve apiKeyId est budget window =>
    if budget = (replicas.settings.apiKeys apiKeyId).tokenBudget ∧
        window = (replicas.settings.apiKeys apiKeyId).windowSeconds then
      let id := RateLimit.numbered s.redis.length
      let (reply, s') := replicas.runCommand s ⟨.ratelimit apiKeyId, ⟨0, 0, .reserve id est⟩⟩
      (reserved id reply, s')
    else (.error (.failure "no such row"), s)
  | .reconcile apiKeyId id actual =>
    (.ok (), (replicas.runCommand s ⟨.ratelimit apiKeyId, ⟨0, 0, .reconcile id actual⟩⟩).2)
  | .allow backendId =>
    let (reply, s') := replicas.runCommand s ⟨.breaker backendId, .allow 0⟩
    (allowed reply, s')
  | .record backendId ok => (.ok (), (replicas.runCommand s ⟨.breaker backendId, .record ok 0⟩).2)
  | .lpush backendId latencyMs =>
    (.ok (), (replicas.runCommand s ⟨.latency backendId, .lpush latencyMs⟩).2)
  | .ltrim backendId =>
    (.ok (), (replicas.runCommand s
      ⟨.latency backendId, .ltrim 0 (replicas.latencyWindow - 1)⟩).2)
  | .exactGet model promptHash =>
    let (reply, s') := replicas.runCommand s ⟨entry model promptHash, .get 0⟩
    (replicas.loaded reply, s')
  | .exactPut model promptHash content tokensIn tokensOut =>
    let (reply, s') := replicas.runCommand s ⟨entry model promptHash, .setEx 0
      (Payload.dumps replicas.json ⟨content, tokensIn, tokensOut⟩) replicas.cache.l1.ttlSeconds⟩
    (set reply, s')
  | .findSimilar model embedding =>
    (.ok (SemanticCacheRepo.findSimilar replicas.cache.cosineDistance
      replicas.cache.similarityThreshold s.entries model embedding), s)
  | .insertEntry entry => (.ok (), { s with entries := s.entries ++ [entry] })
  | op => (other op, s)

theorem answerStores_handle {replicas : Replicas} {answers : (op : Op) → Reply op → Prop}
    {other : (op : Op) → Reply op} (hanswers : ∀ op, answers op (other op)) (s : SharedStores)
    (op : Op) :
    StoresHandle replicas answers s op (answerStores replicas other s op).1
      (answerStores replicas other s op).2 := by
  cases op with
  | reserve apiKeyId est budget window =>
    unfold answerStores
    dsimp only
    split
    · rename_i hrow
      exact .served (.reserve hrow.1 hrow.2) (Replicas.serve_fst _ _)
    · exact .failed _
  | reconcile apiKeyId id actual => exact .served .reconcile (Replicas.serve_fst _ _)
  | allow backendId => exact .served .allow (Replicas.serve_fst _ _)
  | record backendId ok => exact .served .record (Replicas.serve_fst _ _)
  | lpush backendId latencyMs => exact .served .lpush (Replicas.serve_fst _ _)
  | ltrim backendId => exact .served .ltrim (Replicas.serve_fst _ _)
  | exactGet model promptHash => exact .served .exactGet (Replicas.serve_fst _ _)
  | exactPut model promptHash content tokensIn tokensOut =>
    exact .served .exactPut (Replicas.serve_fst _ _)
  | findSimilar model embedding => exact .findSimilar (List.Subset.refl _)
  | insertEntry entry => exact .insertEntry _
  | _ => exact .elsewhere rfl (hanswers _)

/-- Breakers that open at the first failure, and one API key with 100 tokens per minute. -/
def sampleReplicas : Replicas :=
  ⟨⟨⟨1, 30⟩, fun _ => RateLimit.perMinute⟩, sampleCache, .plain, 200⟩

/-- Equal requests have started, for the backends `brokenAndHealthy`. -/
def sameRequest (tags : List Nat) : Pool Nat SharedStores Op Reply Outcome where
  state := ⟨[], []⟩
  history := []
  tasks := tags.map fun tag =>
    (tag, Outcome.completed <$> (handleComplete zeroDigest hiRequest).run)

theorem sameRequest_reachable {answers : (op : Op) → Reply op → Prop}
    {other : (op : Op) → Reply op} (hanswers : ∀ op, answers op (other op))
    (tags turns : List Nat) :
    Pool.Reachable (sharing sampleReplicas answers zeroDigest)
      ((sameRequest tags).schedule (answerStores sampleReplicas other) turns) := by
  refine .schedule (answerStores_handle hanswers) (.starts .initial fun task htask => ?_) _
  obtain ⟨tag, -, rfl⟩ := List.mem_map.mp htask
  exact ⟨hiRequest, rfl, .inl rfl⟩

end InferenceGateway.Orchestrator
