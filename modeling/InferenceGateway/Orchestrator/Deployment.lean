import InferenceGateway.Library.Projection
import InferenceGateway.Orchestrator.Concurrency
import InferenceGateway.Orchestrator.OpenCircuit
import InferenceGateway.Orchestrator.SkippedBackends

/-!
# One process with all that it works on

A process has a registry and semaphores of its own. Its requests send scripts and commands to
Redis, and read and write the tables. Of these, `gateway` and `hotReload` only look at the caches
and the registry, `guarded` at the semaphores too, `circuits` at the breakers and at how many slots
are taken, and `sharing` at Redis and the cached answers. Each of them is a view of the whole
process, so what holds of its runs holds of the runs of the process.
-/
namespace InferenceGateway.Orchestrator
open Library Backends Cache Persistence Redis Resilience

structure Deployed where
  stores : SharedStores
  table : List Backend
  registry : BackendRegistry
  /-- How many client objects have been made. -/
  made : Nat
  semaphores : Semaphores

/-- The operations that only the process, the backend table and the semaphores answer. -/
def Op.isLocal : Op → Bool
  | .candidates _ | .upsert _ | .listBackends | .install _ | .acquire _ | .release _ => true
  | _ => false

/-- What does not work on the stores answers like this. The clients of a reload are new
objects. -/
inductive ProcessHandles (perBackendConcurrency : Nat) (s : Deployed) :
    (op : Op) → Reply op → Deployed → Prop
  | candidates {model : String} {pairs : List (Backend × Client)}
      (hpairs : s.registry.candidates model = some pairs) :
      ProcessHandles perBackendConcurrency s (.candidates model) (.ok pairs) s
  /-- A listed backend has no client. -/
  | keyError {model : String} (e : Raised) (hpairs : s.registry.candidates model = none) :
      ProcessHandles perBackendConcurrency s (.candidates model) (.error e) s
  | upsert (body : BackendUpsert) (uuid4 : Uuid) :
      ProcessHandles perBackendConcurrency s (.upsert body)
        (.ok (BackendRepo.upsert s.table body uuid4).2)
        { s with table := (BackendRepo.upsert s.table body uuid4).1 }
  | upsertFailed (body : BackendUpsert) (e : Raised) :
      ProcessHandles perBackendConcurrency s (.upsert body) (.error e) s
  | listBackends {rows : List Backend} (hrows : rows.Perm s.table) :
      ProcessHandles perBackendConcurrency s .listBackends (.ok rows) s
  | listFailed (e : Raised) : ProcessHandles perBackendConcurrency s .listBackends (.error e) s
  | swap {backends : List Backend} {clientFactory : Backend → Except Raised Client}
      {registry : BackendRegistry} {oldClients : List Client} {made : Nat}
      (hinstall : s.registry.install clientFactory backends = .ok (registry, oldClients))
      (hmade : s.made ≤ made)
      (hnew : ∀ item ∈ registry.clients, s.made ≤ item.2.serial ∧ item.2.serial < made) :
      ProcessHandles perBackendConcurrency s (.install backends) (.ok oldClients)
        { s with registry, made }
  | refused {backends : List Backend} {clientFactory : Backend → Except Raised Client}
      {e : Raised} {made : Nat}
      (hinstall : s.registry.install clientFactory backends = .error e) (hmade : s.made ≤ made) :
      ProcessHandles perBackendConcurrency s (.install backends) (.error e) { s with made }
  | acquire {backendId : Uuid} {r : Reply (.acquire backendId)} {semaphores : Semaphores}
      (h : SemaphoreHandles perBackendConcurrency s.semaphores (.acquire backendId) r semaphores) :
      ProcessHandles perBackendConcurrency s (.acquire backendId) r { s with semaphores }
  | release {backendId : Uuid} {r : Reply (.release backendId)} {semaphores : Semaphores}
      (h : SemaphoreHandles perBackendConcurrency s.semaphores (.release backendId) r semaphores) :
      ProcessHandles perBackendConcurrency s (.release backendId) r { s with semaphores }
  /-- Clocks, clients, the policy, consumers, metrics and the request log. -/
  | elsewhere {op : Op} {r : Reply op} (hop : op.isLocal = false) :
      ProcessHandles perBackendConcurrency s op r s

/-- The tasks of the process, with the rows of their API keys. -/
inductive DeployedTask (replicas : Replicas) (gw : RequestOrchestrator) :
    Purpose → Program Op Reply Outcome → Prop
  | complete (req : ChatRequest) (hkey : req.apiKey = replicas.settings.apiKeys req.apiKey.id) :
      DeployedTask replicas gw (.request req.model)
        (Outcome.completed <$> (handleComplete gw req).run)
  | stream (req : ChatRequest) (hkey : req.apiKey = replicas.settings.apiKeys req.apiKey.id) :
      DeployedTask replicas gw (.request req.model)
        (Outcome.streamed <$> (handleStream gw req).run)
  | admin {p : Program Op Reply Outcome} (h : Starts gw .admin p) :
      DeployedTask replicas gw .admin p

section Deployment
variable (replicas : Replicas) (answers : (op : Op) → Reply op → Prop)
  (perBackendConcurrency : Nat)

def DeployedHandles (s : Deployed) (op : Op) (r : Reply op) (s' : Deployed) : Prop :=
  (∃ stores, op.isShared = true ∧ StoresHandle replicas answers s.stores op r stores ∧
    s' = { s with stores }) ∨
  (op.isShared = false ∧ answers op r ∧ ProcessHandles perBackendConcurrency s op r s')

/-- One process, from empty stores and an empty registry. Others may change the backend table
at any time. -/
def deployment (gw : RequestOrchestrator) (table : List Backend) (purpose : Nat → Purpose) :
    Pool.System Nat Deployed Op Reply Outcome where
  initial := ⟨⟨[], []⟩, table, {}, 0, fun _ => none⟩
  starts tag p := DeployedTask replicas gw (purpose tag) p
  handle := DeployedHandles replicas answers perBackendConcurrency
  drift s s' := ∃ table, s' = { s with table }

end Deployment

/-! ## The views -/

/-- The payload that a value of Redis stands for. -/
def payloadOf (json : JsonText) : Option Value → Option (Stored Payload)
  | some (.string stored) =>
    (Payload.loads? json stored.value).map fun payload => ⟨payload, stored.deadline⟩
  | _ => none

/-- L1 after these commands. -/
def Replicas.l1 (replicas : Replicas) (redis : List Command) : Strings Payload :=
  fun key => payloadOf replicas.json (replicas.db redis key)

namespace Deployed

variable (replicas : Replicas) (perBackendConcurrency : Nat) (s : Deployed)

def world : World := ⟨replicas.l1 s.stores.redis, s.stores.entries, s.table, s.registry⟩
def running : Running := ⟨s.world replicas, s.made⟩
def guarded : Guarded := ⟨s.running replicas, s.semaphores⟩
def circuits : Circuits :=
  ⟨fun backendId => replicas.partState (.breaker backendId) s.stores.redis,
    fun backendId =>
      perBackendConcurrency - freeSlots perBackendConcurrency (s.guarded replicas) backendId⟩

end Deployed

section Views
variable {replicas : Replicas} {answers : (op : Op) → Reply op → Prop}
  {redis : List Command} {op : Op} {r : Reply op}

/-! ### L1 -/

theorem Replicas.db_concat (redis : List Command) (c : Command) :
    replicas.db (redis ++ [c]) = Function.update (replicas.db redis) c.1.key
      (c.1.store ((c.1.service replicas.settings).serve (replicas.partState c.1 redis) c.2).2) := by
  unfold Replicas.db
  rw [Service.state_concat]
  exact congrArg Prod.snd
    (Layout.serve_of_stored ((keyspace replicas.settings).state_key redis c.1) c.2)

theorem Replicas.db_key (redis : List Command) (p : Part) :
    replicas.db redis p.key = p.store (replicas.partState p redis) :=
  (keyspace replicas.settings).state_key redis p

theorem Replicas.l1_cache (redis : List Command) (rest : String) :
    replicas.l1 redis (Part.key (.cache rest)) =
      (replicas.partState (.cache rest) redis).bind fun stored =>
        (Payload.loads? replicas.json stored.value).map fun payload =>
          ⟨payload, stored.deadline⟩ := by
  have hvalue : replicas.db redis (Part.key (.cache rest)) =
      (replicas.partState (.cache rest) redis).map .string := replicas.db_key redis (.cache rest)
  unfold Replicas.l1
  rw [hvalue]
  cases replicas.partState (.cache rest) redis <;> rfl

/-- Only the cache stores strings. -/
theorem payloadOf_store {p : Part} (h : ∀ rest, p ≠ .cache rest) (json : JsonText) (s : p.State) :
    payloadOf json (p.store s) = none := by
  cases p with
  | cache rest => exact absurd rfl (h rest)
  | _ =>
    unfold Part.store
    dsimp only
    split <;> rfl

theorem Replicas.l1_concat_of_ne {c : Command} (h : ∀ rest, c.1 ≠ .cache rest) :
    replicas.l1 (redis ++ [c]) = replicas.l1 redis := by
  funext key
  unfold Replicas.l1
  rw [replicas.db_concat, Function.update_apply]
  split
  · rename_i hkey
    rw [hkey, replicas.db_key, payloadOf_store h, payloadOf_store h]
  · rfl

theorem Replicas.l1_concat_cache (redis : List Command) (rest : String) (call : StringCall) :
    replicas.l1 (redis ++ [⟨.cache rest, call⟩]) = Function.update (replicas.l1 redis)
      (Part.key (.cache rest)) (payloadOf replicas.json
        ((serveString (replicas.partState (.cache rest) redis) call).2.map .string)) := by
  funext key
  have hdb := congrFun (replicas.db_concat redis ⟨.cache rest, call⟩) key
  rw [Function.update_apply] at hdb
  rw [Function.update_apply]
  by_cases hkey : key = Part.key (.cache rest)
  · exact (congrArg _ (hdb.trans (if_pos hkey))).trans (if_pos hkey).symm
  · exact (congrArg _ (hdb.trans (if_neg hkey))).trans (if_neg hkey).symm

/-! ### The exact tier -/

theorem Replicas.entry_key (model promptHash : String) :
    (Replicas.entry model promptHash).key = l1Key model promptHash := by
  simp only [entry, Part.key, l1Key, String.append_assoc]

theorem Replicas.l1_get (redis : List Command) (rest : String) (now : Time) :
    replicas.l1 (redis ++ [⟨.cache rest, .get now⟩]) = replicas.l1 redis := by
  rw [replicas.l1_concat_cache]
  refine Function.update_eq_self_iff.mpr ?_
  rw [replicas.l1_cache]
  cases replicas.partState (.cache rest) redis <;> rfl

/-- What is loaded from the reply of `GET` is what L1 holds. -/
theorem Replicas.loaded_get (redis : List Command) (model promptHash : String) (now : Time) :
    replicas.loaded (serveString (replicas.partState (entry model promptHash) redis)
        (.get now)).1 =
      .ok (ExactCache.get (replicas.l1 redis) now model promptHash) ∨
    ∃ e, replicas.loaded (serveString (replicas.partState (entry model promptHash) redis)
        (.get now)).1 = .error e := by
  unfold ExactCache.get Strings.get
  rw [← entry_key, show (entry model promptHash).key = Part.key (.cache _) from rfl,
    replicas.l1_cache]
  cases hstored : replicas.partState (.cache (model ++ ":" ++ promptHash)) redis with
  | none => exact .inl (by simp [entry, hstored, serveString, loaded])
  | some stored =>
    by_cases hgone : stored.deadline < now
    · refine .inl ?_
      cases hload : Payload.loads? replicas.json stored.value <;>
        simp [entry, hstored, serveString, loaded, hgone, hload]
    · cases hload : Payload.loads? replicas.json stored.value with
      | none => exact .inr ⟨_, by simp [entry, hstored, serveString, loaded, hgone, hload]; rfl⟩
      | some payload =>
        exact .inl (by simp [entry, hstored, serveString, loaded, hgone, hload, Payload.hit])

/-- `SET` does to L1 what `put` does. -/
theorem Replicas.l1_setEx (redis : List Command) (model promptHash : String) (payload : Payload)
    (now : Time) :
    replicas.l1 (redis ++ [⟨entry model promptHash,
        .setEx now (payload.dumps replicas.json) replicas.cache.l1.ttlSeconds⟩]) =
      replicas.cache.l1.put (replicas.l1 redis) now model promptHash payload.content
        payload.tokensIn payload.tokensOut := by
  have hexpire : ¬ replicas.cache.l1.ttlSeconds ≤ 0 := not_le.mpr replicas.cache.l1.ttlSeconds_pos
  refine (replicas.l1_concat_cache redis (model ++ ":" ++ promptHash) _).trans ?_
  funext key
  rw [ExactCache.put, Strings.setEx, ← entry_key, Function.update_apply]
  by_cases hkey : key = (entry model promptHash).key
  · rw [if_pos hkey, if_pos (show key = Part.key (.cache _) from hkey)]
    simp [serveString, hexpire, payloadOf]
  · rw [if_neg hkey, if_neg (show key ≠ Part.key (.cache _) from hkey)]

/-! ### Operations on the stores -/

/-- A script or command does to L1 what its operation does. -/
theorem Replicas.Exchange.handles {s : SharedStores} {c : Command} {reply : c.1.Reply}
    (h : replicas.Exchange op c reply r) (table : List Backend) (registry : BackendRegistry)
    (hreply : reply =
      ((c.1.service replicas.settings).serve (replicas.partState c.1 s.redis) c.2).1) :
    Handles replicas.cache ⟨replicas.l1 s.redis, s.entries, table, registry⟩ op r
      ⟨replicas.l1 (s.redis ++ [c]), s.entries, table, registry⟩ := by
  cases h with
  | exactGet =>
    subst hreply
    refine ⟨congrArg (World.mk · s.entries table registry) (replicas.l1_get s.redis _ _), ?_⟩
    obtain hhit | herror := replicas.loaded_get s.redis _ _ _
    · exact .inl ⟨_, hhit⟩
    · exact .inr herror
  | exactPut => exact .inl ⟨_, by rw [replicas.l1_setEx s.redis _ _ ⟨_, _, _⟩]⟩
  | _ =>
    refine congrArg (World.mk · s.entries table registry) (replicas.l1_concat_of_ne ?_)
    simp

/-- It may do so although the operation raises. -/
theorem Replicas.Exchange.handles_error {s : SharedStores} {c : Command} {reply : c.1.Reply}
    (h : replicas.Exchange op c reply r) (table : List Backend) (registry : BackendRegistry)
    (e : Raised) :
    Handles replicas.cache ⟨replicas.l1 s.redis, s.entries, table, registry⟩ op (.error e)
      ⟨replicas.l1 (s.redis ++ [c]), s.entries, table, registry⟩ := by
  cases h with
  | exactGet =>
    refine ⟨congrArg (World.mk · s.entries table registry) ?_, .inr ⟨e, rfl⟩⟩
    exact replicas.l1_get s.redis _ _
  | exactPut => exact .inl ⟨_, by rw [replicas.l1_setEx s.redis _ _ ⟨_, _, _⟩]⟩
  | _ =>
    refine congrArg (World.mk · s.entries table registry) (replicas.l1_concat_of_ne ?_)
    simp

/-- What the stores answer, `Handles` allows. -/
theorem StoresHandle.handles {s s' : SharedStores} (h : StoresHandle replicas answers s op r s')
    (hop : op.isShared = true) (table : List Backend) (registry : BackendRegistry) :
    Handles replicas.cache ⟨replicas.l1 s.redis, s.entries, table, registry⟩ op r
      ⟨replicas.l1 s'.redis, s'.entries, table, registry⟩ := by
  cases h with
  | served hexchange hserve =>
    exact hexchange.handles table registry (Replicas.reply_eq hserve)
  | lost e hexchange => exact hexchange.handles_error table registry e
  | failed e =>
    cases op with
    | exactGet => exact ⟨rfl, .inr ⟨e, rfl⟩⟩
    | exactPut => exact .inr ⟨rfl, e, rfl⟩
    | findSimilar => exact ⟨rfl, .inr ⟨e, rfl⟩⟩
    | insertEntry => exact .inr ⟨rfl, e, rfl⟩
    | candidates | upsert | listBackends | install => simp [Op.isShared] at hop
    | _ => exact rfl
  | findSimilar hrows => exact ⟨rfl, .inl ⟨_, hrows, rfl⟩⟩
  | insertEntry r => exact .inl rfl
  | elsewhere hlocal => simp [hlocal] at hop

/-! ### Breakers -/

theorem Replicas.partState_concat_of_ne {p : Part} {c : Command} (h : c.1 ≠ p) :
    replicas.partState p (redis ++ [c]) = replicas.partState p redis := by
  rw [partState, Layout.callsOf_concat_of_ne h, partState]

/-- A script of one breaker leaves the others alone. -/
theorem Replicas.breakers_concat (redis : List Command) (backendId : Uuid)
    (call : Breaker.Call) :
    (fun id => replicas.partState (.breaker id) (redis ++ [⟨.breaker backendId, call⟩])) =
      Function.update (fun id => replicas.partState (.breaker id) redis) backendId
        (replicas.settings.breaker.serve (replicas.partState (.breaker backendId) redis)
          call).2 := by
  funext id
  rw [Function.update_apply]
  split
  · rename_i heq
    subst heq
    rw [partState, Layout.callsOf_concat_self, Service.state_concat]
    rfl
  · rename_i hne
    exact replicas.partState_concat_of_ne (by simpa using Ne.symm hne)

theorem StoresHandle.circuits {s s' : SharedStores} (h : StoresHandle replicas answers s op r s')
    (hop : op.isShared = true) (perBackendConcurrency : Nat) (taken : Uuid → Nat) :
    CircuitHandles replicas.settings.breaker perBackendConcurrency
      ⟨fun id => replicas.partState (.breaker id) s.redis, taken⟩ op r
      ⟨fun id => replicas.partState (.breaker id) s'.redis, taken⟩ := by
  obtain ⟨hredis, hquiet⟩ | ⟨c, reply, r', hexchange, hredis, hreply⟩ := h.redis_cases
  · rw [hredis]
    obtain ⟨e, rfl⟩ | hlocal | ⟨model, embedding, rfl⟩ | ⟨entry, rfl⟩ := hquiet
    · cases op with
      | allow => exact .inr ⟨rfl, e, rfl⟩
      | record => exact .inr ⟨rfl, e, rfl⟩
      | acquire | release => simp [Op.isShared] at hop
      | _ => exact rfl
    · simp [hlocal] at hop
    · exact rfl
    · exact rfl
  · rw [hredis]
    cases hexchange with
    | allow =>
      rw [replicas.breakers_concat]
      refine .inl ⟨_, rfl, fun verdict hverdict => ?_⟩
      obtain ⟨rfl, hreply⟩ | ⟨e, rfl⟩ := hreply
      · exact hreply ▸ eq_of_allowed hverdict.symm
      · exact absurd hverdict (by simp)
    | record =>
      rw [replicas.breakers_concat]
      exact .inl ⟨_, rfl⟩
    | _ =>
      refine congrArg (Circuits.mk · taken) (funext fun id => ?_)
      exact replicas.partState_concat_of_ne (by simp [Replicas.entry])

/-! ### Operations of the process -/

variable {perBackendConcurrency : Nat} {s s' : Deployed}

theorem ProcessHandles.handles (h : ProcessHandles perBackendConcurrency s op r s')
    (hop : op.isShared = false) :
    Handles replicas.cache (s.world replicas) op r (s'.world replicas) := by
  cases h with
  | candidates hpairs => exact ⟨rfl, .inl ⟨_, hpairs, rfl⟩⟩
  | keyError e hpairs => exact ⟨rfl, .inr ⟨e, rfl⟩⟩
  | upsert body uuid4 => exact .inl ⟨uuid4, rfl, rfl⟩
  | upsertFailed body e => exact .inr ⟨rfl, e, rfl⟩
  | listBackends hrows => exact ⟨rfl, .inl ⟨_, hrows, rfl⟩⟩
  | listFailed e => exact ⟨rfl, .inr ⟨e, rfl⟩⟩
  | @swap _ clientFactory _ _ _ hinstall hmade hnew =>
    refine ⟨clientFactory, ?_⟩
    rw [show (s.world replicas).registry = s.registry from rfl, hinstall]
    exact ⟨rfl, rfl⟩
  | @refused _ clientFactory _ _ hinstall hmade =>
    refine ⟨clientFactory, ?_⟩
    rw [show (s.world replicas).registry = s.registry from rfl, hinstall]
    exact ⟨rfl, rfl⟩
  | acquire h => exact rfl
  | release h => exact rfl
  | elsewhere hlocal =>
    cases op with
    | exactGet | exactPut | findSimilar | insertEntry => simp [Op.isShared] at hop
    | candidates | upsert | listBackends | install => simp [Op.isLocal] at hlocal
    | _ => exact rfl

theorem ProcessHandles.semaphores (h : ProcessHandles perBackendConcurrency s op r s') :
    SemaphoreHandles perBackendConcurrency s.semaphores op r s'.semaphores := by
  cases h with
  | acquire h => exact h
  | release h => exact h
  | elsewhere hlocal => cases op <;> first | exact rfl | simp [Op.isLocal] at hlocal
  | _ => exact rfl

theorem ProcessHandles.newClients (h : ProcessHandles perBackendConcurrency s op r s') :
    s.made ≤ s'.made ∧ NewClients (s.running replicas) (s'.running replicas) op r := by
  cases h with
  | swap hinstall hmade hnew => exact ⟨hmade, hnew⟩
  | refused hinstall hmade => exact ⟨hmade, trivial⟩
  | elsewhere hlocal =>
    refine ⟨le_rfl, ?_⟩
    cases op <;> first | exact trivial | simp [Op.isLocal] at hlocal
  | _ => exact ⟨le_rfl, trivial⟩

theorem ProcessHandles.stores (h : ProcessHandles perBackendConcurrency s op r s') :
    s'.stores = s.stores := by
  cases h <;> rfl

/-- An operation of the deployment is one of the guarded gateway. -/
theorem DeployedHandles.guarded
    (h : DeployedHandles replicas answers perBackendConcurrency s op r s')
    (gw : RequestOrchestrator) (table : List Backend) :
    (Orchestrator.guarded replicas.cache gw table perBackendConcurrency).handle
      (s.guarded replicas) op r (s'.guarded replicas) := by
  obtain ⟨stores, hop, hstores, rfl⟩ | ⟨hop, -, hprocess⟩ := h
  · refine ⟨⟨hstores.handles hop s.table s.registry, le_rfl, ?_⟩, ?_⟩
    · cases op <;> first | exact trivial | simp [Op.isShared] at hop
    · cases op <;> first | exact rfl | simp [Op.isShared] at hop
  · obtain ⟨hmade, hnew⟩ := hprocess.newClients
    exact ⟨⟨hprocess.handles hop, hmade, hnew⟩, hprocess.semaphores⟩

/-! ### Slots -/

/-- Entering and leaving a semaphore takes a slot and gives it back. -/
theorem SemaphoreHandles.circuits {semaphores semaphores' : Semaphores}
    (h : SemaphoreHandles perBackendConcurrency semaphores op r semaphores')
    (hop : op.isShared = false)
    (hfree : ∀ id, (semaphores id).getD perBackendConcurrency ≤ perBackendConcurrency)
    (cb : Breaker.CircuitBreaker) (breakers : Uuid → Breaker.BreakerHash) :
    CircuitHandles cb perBackendConcurrency
      ⟨breakers, fun id => perBackendConcurrency - (semaphores id).getD perBackendConcurrency⟩ op r
      ⟨breakers, fun id =>
        perBackendConcurrency - (semaphores' id).getD perBackendConcurrency⟩ := by
  cases op with
  | acquire id =>
    have hle := hfree id
    simp only [SemaphoreHandles, semaphoreFor_eq, Function.update_idem] at h
    rcases h with ⟨hpos, rfl, rfl⟩ | ⟨rfl, e, rfl⟩
    · refine .inl ⟨by dsimp only; omega, rfl, ?_⟩
      refine congrArg (Circuits.mk breakers) (funext fun x => ?_)
      rw [Function.update_apply, Function.update_apply]
      split
      · rw [Option.getD_some]
        dsimp only
        omega
      · rfl
    · refine .inr ⟨congrArg (Circuits.mk breakers) (funext fun x => ?_), e, rfl⟩
      rw [Function.update_apply]
      split
      · rename_i heq
        rw [heq, Option.getD_some]
      · rfl
  | release id =>
    simp only [SemaphoreHandles, semaphoreFor_eq, Function.update_idem] at h
    subst h
    refine congrArg (Circuits.mk breakers) (funext fun x => ?_)
    rw [Function.update_apply, Function.update_apply]
    split
    · rw [Option.getD_some]
      dsimp only
      omega
    · rfl
  | allow | record => simp [Op.isShared] at hop
  | _ => exact congrArg (fun sem : Semaphores => Circuits.mk breakers fun id =>
      perBackendConcurrency - (sem id).getD perBackendConcurrency) h

end Views

/-! ## The projections -/

section Projections
variable (replicas : Replicas) (answers : (op : Op) → Reply op → Prop)
  (perBackendConcurrency : Nat) (gw : RequestOrchestrator) (table : List Backend)
  (purpose : Nat → Purpose)

theorem DeployedTask.starts {replicas : Replicas} {gw : RequestOrchestrator} {purpose : Purpose}
    {p : Program Op Reply Outcome} (h : DeployedTask replicas gw purpose p) :
    Starts gw purpose p := by
  cases h with
  | complete req hkey => exact .complete req
  | stream req hkey => exact .stream req
  | admin h => exact h

def gatewayView :
    Pool.Projection (deployment replicas answers perBackendConcurrency gw table purpose)
      (gateway replicas.cache gw table) where
  view := Deployed.world replicas
  tag t := some (purpose t)
  hidden _ := False
  good _ := True
  initial := rfl
  starts t _ p ht hstart := Option.some.inj ht ▸ hstart.starts
  aside _ _ ht := absurd ht (by simp)
  handle _ _ _ _ _ hhandle := (hhandle.guarded gw table).1.1
  unseen _ _ _ _ h := False.elim h
  drift s s' := by
    rintro ⟨table, rfl⟩
    exact .inr (.table table)

def hotReloadView :
    Pool.Projection (deployment replicas answers perBackendConcurrency gw table purpose)
      (hotReload replicas.cache gw table) where
  view := Deployed.running replicas
  tag := some
  hidden _ := False
  good _ := True
  initial := rfl
  starts _ _ _ _ hstart := ⟨_, hstart.starts⟩
  aside _ _ ht := absurd ht (by simp)
  handle _ _ _ _ _ hhandle := (hhandle.guarded gw table).1
  unseen _ _ _ _ h := False.elim h
  drift s s' := by
    rintro ⟨table, rfl⟩
    exact .inr ⟨.table table, rfl, rfl⟩

def guardedView :
    Pool.Projection (deployment replicas answers perBackendConcurrency gw table purpose)
      (guarded replicas.cache gw table perBackendConcurrency) where
  view := Deployed.guarded replicas
  tag := some
  hidden _ := False
  good _ := True
  initial := rfl
  starts _ _ _ _ hstart := ⟨_, hstart.starts⟩
  aside _ _ ht := absurd ht (by simp)
  handle _ _ _ _ _ hhandle := hhandle.guarded gw table
  unseen _ _ _ _ h := False.elim h
  drift s s' := by
    rintro ⟨table, rfl⟩
    exact .inr ⟨⟨.table table, rfl, rfl⟩, rfl⟩

/-- The tag of a chat request. -/
def requestTag (tag : Nat) : Option Nat :=
  match purpose tag with
  | .request _ => some tag
  | .admin => none

theorem exists_request {purpose : Nat → Purpose} {t t' : Nat} (h : requestTag purpose t = some t') :
    t = t' ∧ ∃ model, purpose t = .request model := by
  unfold requestTag at h
  split at h
  · rename_i model hmodel
    exact ⟨Option.some.inj h, model, hmodel⟩
  · simp at h

theorem admin_of_none {purpose : Nat → Purpose} {t : Nat} (h : requestTag purpose t = none) :
    purpose t = .admin := by
  unfold requestTag at h
  split at h
  · simp at h
  · assumption

/-- Admin requests keep to their operations. -/
theorem DeployedTask.aside {replicas : Replicas} {gw : RequestOrchestrator}
    {purpose : Nat → Purpose} {t : Nat} {p : Program Op Reply Outcome}
    (ht : requestTag purpose t = none) (h : DeployedTask replicas gw (purpose t) p) :
    Program.wp (Pool.anyReplyTo AdminOp) p fun _ _ => True := by
  have hstart := h.starts
  rw [admin_of_none ht] at hstart
  exact ClosesOld.wp_starts ⟨fun _ hop _ => hop, fun _ _ _ _ _ => trivial⟩ hstart

/-- No operation of an admin request works on Redis, the cached answers or a semaphore. -/
theorem DeployedHandles.aside {replicas : Replicas} {answers : (op : Op) → Reply op → Prop}
    {perBackendConcurrency : Nat} {s s' : Deployed} {op : Op} {r : Reply op} (hop : AdminOp op)
    (h : DeployedHandles replicas answers perBackendConcurrency s op r s') :
    s'.stores = s.stores ∧ s'.semaphores = s.semaphores := by
  obtain ⟨stores, hshared, -, -⟩ | ⟨-, -, hprocess⟩ := h
  · cases op <;> first | exact False.elim hop | simp [Op.isShared] at hshared
  · refine ⟨hprocess.stores, ?_⟩
    have hsemaphores := hprocess.semaphores
    cases op <;> first | exact False.elim hop | exact hsemaphores

def circuitsView :
    Pool.Projection (deployment replicas answers perBackendConcurrency gw table purpose)
      (circuits replicas.settings.breaker perBackendConcurrency gw fun _ => .absent) where
  view := Deployed.circuits replicas perBackendConcurrency
  tag := requestTag purpose
  hidden := AdminOp
  good s := ∀ id, (s.semaphores id).getD perBackendConcurrency ≤ perBackendConcurrency
  initial := congrArg (Circuits.mk _) (funext fun _ => Nat.sub_self _)
  starts t t' p ht hstart := by
    obtain ⟨rfl, model, hmodel⟩ := exists_request ht
    exact ⟨model, hmodel ▸ hstart.starts⟩
  aside _ _ ht hstart := hstart.aside ht
  handle s op r s' hgood hhandle := by
    obtain ⟨stores, hop, hstores, rfl⟩ | ⟨hop, -, hprocess⟩ := hhandle
    · exact hstores.circuits hop perBackendConcurrency _
    · unfold Deployed.circuits
      rw [hprocess.stores]
      exact hprocess.semaphores.circuits hop hgood _ _
  unseen s op r s' hop hhandle := by
    obtain ⟨hstores, hsemaphores⟩ := hhandle.aside hop
    simp only [Deployed.circuits, freeSlots, Deployed.guarded, hstores, hsemaphores]
  drift s s' := by
    rintro ⟨table, rfl⟩
    exact .inl rfl

def sharingView :
    Pool.Projection (deployment replicas answers perBackendConcurrency gw table purpose)
      (sharing replicas answers gw) where
  view := Deployed.stores
  tag := requestTag purpose
  hidden := AdminOp
  good _ := True
  initial := rfl
  starts t t' p ht hstart := by
    obtain ⟨rfl, model, hmodel⟩ := exists_request ht
    have hstart : DeployedTask replicas gw (purpose t) p := hstart
    rw [hmodel] at hstart
    cases hstart with
    | complete req hkey => exact ⟨req, hkey, .inl rfl⟩
    | stream req hkey => exact ⟨req, hkey, .inr rfl⟩
  aside _ _ ht hstart := hstart.aside ht
  handle s op r s' _ hhandle := by
    obtain ⟨stores, -, hstores, rfl⟩ | ⟨hop, hanswers, hprocess⟩ := hhandle
    · exact hstores
    · rw [hprocess.stores]
      exact .elsewhere hop hanswers
  unseen s op r s' hop hhandle := (hhandle.aside hop).1
  drift s s' := by
    rintro ⟨table, rfl⟩
    exact .inl rfl

end Projections

section Runs
variable {replicas : Replicas} {answers : (op : Op) → Reply op → Prop}
  {perBackendConcurrency : Nat} {gw : RequestOrchestrator} {table : List Backend}
  {purpose : Nat → Purpose} {w : Pool Nat Deployed Op Reply Outcome}

/-- No semaphore ever has more free slots than it was made with. -/
theorem freeSlots_le
    (h : Pool.Reachable (deployment replicas answers perBackendConcurrency gw table purpose) w)
    (hnodup : (w.tasks.map Prod.fst).Nodup) (backendId : Uuid) :
    (w.state.semaphores backendId).getD perBackendConcurrency ≤ perBackendConcurrency := by
  let view := guardedView replicas answers perBackendConcurrency gw table purpose
  have hreach := view.reachable h hnodup fun _ _ _ => trivial
  have hshown : (view.pool w).tasks = w.tasks := by
    simp [view, guardedView, Pool.Projection.pool, Pool.Projection.shown]
  have hslots := freeSlots_add hreach (hshown ▸ hnodup) backendId
  exact Nat.le.intro hslots

/-- Every run of one process of the gateway is at the same time a run of each of the systems
that look at a part of it: of `gateway`, by the purposes of the tasks, of `hotReload` and of
`guarded`, and, as far as its chat requests go, of `circuits` and of `sharing`. -/
theorem deployment_refines (replicas : Replicas) (answers : (op : Op) → Reply op → Prop)
    (perBackendConcurrency : Nat) (gw : RequestOrchestrator) (table : List Backend)
    (purpose : Nat → Purpose) {w : Pool Nat Deployed Op Reply Outcome}
    (hreach : Pool.Reachable (deployment replicas answers perBackendConcurrency gw table purpose) w)
    (hnodup : (w.tasks.map Prod.fst).Nodup) :
    Pool.Reachable (gateway replicas.cache gw table)
      ((gatewayView replicas answers perBackendConcurrency gw table purpose).pool w) ∧
    Pool.Reachable (hotReload replicas.cache gw table)
      ((hotReloadView replicas answers perBackendConcurrency gw table purpose).pool w) ∧
    Pool.Reachable (guarded replicas.cache gw table perBackendConcurrency)
      ((guardedView replicas answers perBackendConcurrency gw table purpose).pool w) ∧
    Pool.Reachable (circuits replicas.settings.breaker perBackendConcurrency gw fun _ => .absent)
      ((circuitsView replicas answers perBackendConcurrency gw table purpose).pool w) ∧
    Pool.Reachable (sharing replicas answers gw)
      ((sharingView replicas answers perBackendConcurrency gw table purpose).pool w) :=
  ⟨Pool.Projection.reachable hreach hnodup fun _ _ _ => trivial,
    Pool.Projection.reachable hreach hnodup fun _ _ _ => trivial,
    Pool.Projection.reachable hreach hnodup fun _ _ _ => trivial,
    Pool.Projection.reachable hreach hnodup fun _ hu hn id => freeSlots_le hu hn id,
    Pool.Projection.reachable hreach hnodup fun _ _ _ => trivial⟩

end Runs

/-! ## Two reloads and two requests -/

/-- How a process answers whose backends fail, with one new client a reload. -/
def answerDeployed (replicas : Replicas) (perBackendConcurrency : Nat) :
    Program.Handler Op Reply Deployed := fun s op =>
  if op.isShared then
    ((answerStores replicas failoverAnswer s.stores op).1,
      { s with stores := (answerStores replicas failoverAnswer s.stores op).2 })
  else
    let answer := answerGuarded perBackendConcurrency (s.guarded replicas) op
    (answer.1, { s with
      registry := answer.2.running.world.registry, made := answer.2.running.made,
      semaphores := answer.2.semaphores })

theorem answerDeployed_handle (replicas : Replicas) (perBackendConcurrency : Nat)
    (gw : RequestOrchestrator) (table : List Backend) (purpose : Nat → Purpose) (s : Deployed)
    (op : Op) :
    (deployment replicas (fun _ _ => True) perBackendConcurrency gw table purpose).handle s op
      (answerDeployed replicas perBackendConcurrency s op).1
      (answerDeployed replicas perBackendConcurrency s op).2 := by
  unfold answerDeployed
  split
  · rename_i hop
    exact .inl ⟨_, hop, answerStores_handle (fun _ => trivial) _ _, rfl⟩
  · rename_i hop
    refine .inr ⟨by simpa using hop, trivial, ?_⟩
    cases op with
    | candidates model =>
      cases hpairs : s.registry.candidates model with
      | some pairs =>
        have hanswer : answerGuarded perBackendConcurrency (s.guarded replicas)
            (.candidates model) = (.ok pairs, s.guarded replicas) := by
          simp [answerGuarded, answerOnce, Deployed.guarded, Deployed.running, Deployed.world,
            hpairs]
        rw [hanswer]
        exact .candidates hpairs
      | none =>
        have hanswer : answerGuarded perBackendConcurrency (s.guarded replicas)
            (.candidates model) = (.error (.failure "KeyError"), s.guarded replicas) := by
          simp [answerGuarded, answerOnce, Deployed.guarded, Deployed.running, Deployed.world,
            hpairs]
        rw [hanswer]
        exact .keyError _ hpairs
    | listBackends => exact .listBackends (.refl _)
    | install rows =>
      cases hinstall : s.registry.install
          (fun _ => (.ok ⟨s.made⟩ : Except Raised Client)) rows with
      | error e =>
        have hanswer : answerGuarded perBackendConcurrency (s.guarded replicas) (.install rows) =
            (.error e, s.guarded replicas) := by
          simp [answerGuarded, answerOnce, Deployed.guarded, Deployed.running, Deployed.world,
            hinstall]
        rw [hanswer]
        exact .refused hinstall le_rfl
      | ok new =>
        have hanswer : answerGuarded perBackendConcurrency (s.guarded replicas) (.install rows) =
            (.ok new.2, { s.guarded replicas with
              running := ⟨{ s.world replicas with registry := new.1 }, s.made + 1⟩ }) := by
          simp [answerGuarded, answerOnce, Deployed.guarded, Deployed.running, Deployed.world,
            hinstall]
        rw [hanswer]
        refine .swap hinstall (Nat.le_succ _) fun item hitem => ?_
        obtain ⟨row, -, hmade⟩ := (BackendRegistry.clients_install hinstall).1 item hitem
        rw [← Except.ok.inj hmade]
        exact ⟨le_rfl, Nat.lt_succ_self _⟩
    | upsert body => exact .upsertFailed body _
    | acquire backendId =>
      have hrunning : (answerGuarded perBackendConcurrency (s.guarded replicas)
          (.acquire backendId)).2.running = s.running replicas := by
        unfold answerGuarded
        dsimp only
        split <;> rfl
      dsimp only
      rw [hrunning]
      exact .acquire (answerGuarded_handle replicas.cache gw table perBackendConcurrency
        (s.guarded replicas) (.acquire backendId)).2
    | release backendId =>
      exact .release (answerGuarded_handle replicas.cache gw table perBackendConcurrency
        (s.guarded replicas) (.release backendId)).2
    | _ => exact .elsewhere rfl

/-- The first two tasks are reloads, the others are requests. -/
def reloadsFirst (tag : Nat) : Purpose := if tag < 2 then .admin else .request "m"

/-- Two reloads and two requests have started. -/
def processTasks : Pool Nat Deployed Op Reply Outcome where
  state := ⟨⟨[], []⟩, flaky, {}, 0, fun _ => none⟩
  history := []
  tasks := [(0, (fun _ => .administered) <$> reload.run),
    (1, (fun _ => .administered) <$> reload.run),
    (2, Outcome.completed <$> (handleComplete zeroDigest hiRequest).run),
    (3, Outcome.streamed <$> (handleStream zeroDigest hiRequest).run)]

theorem processTasks_start : ∀ task ∈ processTasks.tasks,
    DeployedTask sampleReplicas zeroDigest (reloadsFirst task.1) task.2 := by
  simp only [processTasks, List.forall_mem_cons]
  exact ⟨.admin .reload, .admin .reload, .complete hiRequest rfl, .stream hiRequest rfl,
    List.forall_mem_nil _⟩

/-- Everything that the two requests do, after the reloads. -/
def processRun : Pool Nat Deployed Op Reply Outcome :=
  processTasks.schedule (answerDeployed sampleReplicas 1)
    (List.replicate 3 0 ++ List.replicate 4 1 ++ List.replicate 20 2 ++ List.replicate 20 3)

theorem deployment_refines_four :
    Pool.Reachable (gateway sampleReplicas.cache zeroDigest flaky)
      ((gatewayView sampleReplicas (fun _ _ => True) 1 zeroDigest flaky reloadsFirst).pool
        processRun) ∧
    Pool.Reachable (hotReload sampleReplicas.cache zeroDigest flaky)
      ((hotReloadView sampleReplicas (fun _ _ => True) 1 zeroDigest flaky reloadsFirst).pool
        processRun) ∧
    Pool.Reachable (guarded sampleReplicas.cache zeroDigest flaky 1)
      ((guardedView sampleReplicas (fun _ _ => True) 1 zeroDigest flaky reloadsFirst).pool
        processRun) ∧
    Pool.Reachable (circuits sampleReplicas.settings.breaker 1 zeroDigest fun _ => .absent)
      ((circuitsView sampleReplicas (fun _ _ => True) 1 zeroDigest flaky reloadsFirst).pool
        processRun) ∧
    Pool.Reachable (sharing sampleReplicas (fun _ _ => True) zeroDigest)
      ((sharingView sampleReplicas (fun _ _ => True) 1 zeroDigest flaky reloadsFirst).pool
        processRun) := by
  refine deployment_refines sampleReplicas _ 1 zeroDigest flaky reloadsFirst ?_ ?_
  · exact .schedule (answerDeployed_handle _ _ _ _ _) (.starts .initial processTasks_start) _
  · unfold processRun
    rw [Pool.map_fst_schedule]
    decide

end InferenceGateway.Orchestrator
