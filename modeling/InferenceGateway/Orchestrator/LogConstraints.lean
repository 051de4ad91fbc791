import InferenceGateway.Orchestrator.Deployment
import InferenceGateway.Orchestrator.Upkeep

/-!
# The constraints of the request log

A request logs the backend it has been offered. The registry offers what a reload has read from
the backend table, possibly long ago, while the table goes on changing. As long as no row of it
is deleted, no insert breaks a constraint of `request_log`.
-/
namespace InferenceGateway.Orchestrator
open Library Library.Action Backends Persistence

/-- A reload has read this row. -/
def Listed (h : List (Nat × Event)) (backend : Backend) : Prop :=
  ∃ tag rows, (tag, ⟨.listBackends, .ok rows⟩) ∈ h ∧ backend ∈ rows

/-- The rows that requests insert: for a cache hit, for an answer of a backend at the prices that
a reload has read, or for a request that no backend has answered. -/
inductive LogRow (h : List (Nat × Event)) : RequestLog → Prop
  | hit {apiKeyId : Uuid} {model : String} {latencyMs tokensIn tokensOut : Int}
      (tier : CacheTier) : LogRow h {
        apiKeyId, model, latencyMs, status := 200, cacheTier := some tier.value, tokensIn,
        tokensOut }
  | served {apiKeyId : Uuid} {model : String} {latencyMs tokensIn tokensOut : Int}
      {finishReason : Option String} {backend : Backend} (hlisted : Listed h backend) : LogRow h {
        apiKeyId, model, latencyMs, status := 200, backendId := some backend.id, tokensIn,
        tokensOut, cost := cost backend tokensIn tokensOut, finishReason }
  | unavailable {apiKeyId : Uuid} {model : String} {latencyMs : Int} : LogRow h {
        apiKeyId, model, latencyMs, status := 503 }

/-- The constraints of `request_log`: `backend_id` refers to a row of `backend`, and the check
of `cache_tier`. -/
structure Constraints (table : List Backend) (row : RequestLog) : Prop where
  backendId : ∀ id, row.backendId = some id → id ∈ table.map Backend.id
  cacheTier : ∀ tier, row.cacheTier = some tier → tier = "l1" ∨ tier = "l2"

theorem Listed.later {h h' : List (Nat × Event)} {backend : Backend} (hlisted : Listed h backend)
    (hle : h ⊆ h') : Listed h' backend := by
  obtain ⟨tag, rows, hmem, hrow⟩ := hlisted
  exact ⟨tag, rows, hle hmem, hrow⟩

theorem LogRow.later {h h' : List (Nat × Event)} {row : RequestLog} (hrow : LogRow h row)
    (hle : h ⊆ h') : LogRow h' row := by
  cases hrow with
  | hit tier => exact .hit tier
  | served hlisted => exact .served (hlisted.later hle)
  | unavailable => exact .unavailable

/-- If every row that a reload has read is still in the table, the constraints hold. -/
theorem LogRow.constraints {h : List (Nat × Event)} {row : RequestLog} (hrow : LogRow h row)
    {table : List Backend}
    (hkept : ∀ backend, Listed h backend → backend.id ∈ table.map Backend.id) :
    Constraints table row := by
  cases hrow with
  | hit tier =>
    refine ⟨by simp, fun t ht => ?_⟩
    obtain rfl := Option.some.inj ht
    cases tier
    · exact .inl rfl
    · exact .inr rfl
  | served hlisted =>
    refine ⟨fun id hid => ?_, by simp⟩
    obtain rfl := Option.some.inj hid
    exact hkept _ hlisted
  | unavailable => exact ⟨by simp, by simp⟩

/-! ## What is written is what was read -/

/-- Reloads install what they have read, and requests log what they were offered. -/
def WritesListed (h : List (Nat × Event)) : Op → Prop
  | .insertLog row => LogRow h row
  | .install rows => ∀ backend ∈ rows, Listed h backend
  | _ => True

def RepliesListed (h : List (Nat × Event)) : (op : Op) → Reply op → Prop
  | .listBackends, .ok rows => ∀ backend ∈ rows, Listed h backend
  | .candidates _, .ok pairs => ∀ pair ∈ pairs, Listed h pair.1
  | _, _ => True

abbrev listedContract (h : List (Nat × Event)) : Contract := ⟨WritesListed h, RepliesListed h⟩

section Tasks
variable {h h' : List (Nat × Event)}

theorem RepliesListed.later {op : Op} {r : Reply op} (hr : RepliesListed h op r) (hle : h ⊆ h') :
    RepliesListed h' op r := by
  unfold RepliesListed at hr ⊢
  split
  · exact fun backend hbackend => (hr backend hbackend).later hle
  · exact fun pair hpair => (hr pair hpair).later hle
  · trivial

theorem listedUpkeep (gw : RequestOrchestrator) (req : ChatRequest) :
    Upkeep (listedContract h) gw req (fun _ _ => True) (Listed h) where
  plain op hop := by cases op <;> trivial
  reserve := trivial
  reconcile _ _ _ _ := trivial
  exactPut _ _ _ _ := trivial
  insertEntry _ _ _ _ _ := trivial
  hitRow _ tier _ _ _ := .hit tier
  servedRow _ _ _ _ _ hlisted _ := .served hlisted
  unavailableRow _ := .unavailable
  exactHit _ _ _ _ := trivial
  similar _ _ _ _ := trivial
  offered _ _ hoffered := hoffered
  completed _ _ _ _ _ := trivial
  streamed _ _ _ _ _ _ _ := trivial
  silent := trivial

theorem gives_acloseAll (clients : List Client) :
    Gives (listedContract h) (acloseAll clients) fun _ => True := by
  induction clients with
  | nil => exact Gives.pure trivial
  | cons client clients ih => exact Gives.perform trivial fun _ _ => ih

theorem gives_reload : Gives (listedContract h) reload fun _ => True :=
  Gives.perform trivial fun _ hrows => Gives.perform trivial fun _ _ =>
    Gives.perform hrows fun oldClients _ => gives_acloseAll oldClients

theorem gives_upsertBackend (body : BackendUpsert) :
    Gives (listedContract h) (upsertBackend body) fun _ => True :=
  Gives.perform trivial fun _ _ => gives_reload.bind fun _ _ => Gives.pure trivial

theorem Starts.listed {gw : RequestOrchestrator} {purpose : Purpose}
    {p : Program Op Reply Outcome} (hstart : Starts gw purpose p) :
    Program.wp (listedContract h) p fun _ _ => True := by
  cases hstart with
  | complete req =>
    exact (Program.wp_map _ _).mpr
      (Program.wp_mono (listedUpkeep gw req).handleComplete.run fun _ _ _ => trivial)
  | stream req =>
    exact (Program.wp_map _ _).mpr
      (Program.wp_mono (listedUpkeep gw req).handleStream.run fun _ _ _ => trivial)
  | upsert body =>
    exact (Program.wp_map _ _).mpr
      (Program.wp_mono (gives_upsertBackend body).run fun _ _ _ => trivial)
  | reload =>
    exact (Program.wp_map _ _).mpr (Program.wp_mono gives_reload.run fun _ _ _ => trivial)

end Tasks

/-! ## Rows stay in the table -/

/-- An upsert deletes no row. -/
theorem map_id_upsert (table : List Backend) (body : BackendUpsert) (uuid4 : Uuid) :
    table.map Backend.id ⊆ (BackendRepo.upsert table body uuid4).1.map Backend.id := by
  unfold BackendRepo.upsert
  split
  · rename_i existing hfind
    have hsame : (table.map fun row =>
        if row.id = existing.id then BackendRepo.assign row body else row).map Backend.id =
          table.map Backend.id := by
      rw [List.map_map]
      refine List.map_congr_left fun row _ => ?_
      dsimp only [Function.comp]
      split <;> rfl
    exact hsame ▸ List.Subset.refl _
  · rw [List.map_append]
    exact List.subset_append_left _ _

section Deployment
variable (replicas : Replicas) (answers : (op : Op) → Reply op → Prop)
  (perBackendConcurrency : Nat)

/-- The deployment, when others may change the backend table and add to it, but delete nothing
from it. -/
def growing (gw : RequestOrchestrator) (table : List Backend) (purpose : Nat → Purpose) :
    Pool.System Nat Deployed Op Reply Outcome :=
  { deployment replicas answers perBackendConcurrency gw table purpose with
    drift := fun s s' => ∃ table, s.table.map Backend.id ⊆ table.map Backend.id ∧
      s' = { s with table } }

/-- What has been read is still in the table, the registry offers only that, and only such rows
have been logged. -/
structure LogBook (s : Deployed) (h : List (Nat × Event)) : Prop where
  table : ∀ backend, Listed h backend → backend.id ∈ s.table.map Backend.id
  registry : ∀ model, ∀ backend ∈ s.registry.byModel model, Listed h backend
  rows : ∀ tag row r, (tag, ⟨.insertLog row, r⟩) ∈ h → LogRow h row

variable {replicas answers perBackendConcurrency}

theorem listed_concat {h : List (Nat × Event)} {e : Nat × Event} {backend : Backend}
    (hlisted : Listed (h ++ [e]) backend) : Listed h backend ∨
      ∃ tag rows, e = (tag, ⟨.listBackends, .ok rows⟩) ∧ backend ∈ rows := by
  obtain ⟨tag, rows, hmem, hrow⟩ := hlisted
  obtain hold | hlast := List.mem_append.mp hmem
  · exact .inl ⟨tag, rows, hold, hrow⟩
  · exact .inr ⟨tag, rows, (List.mem_singleton.mp hlast).symm, hrow⟩

/-- What an operation does to the table and the registry. -/
theorem ProcessHandles.book_cases {s s' : Deployed} {op : Op} {r : Reply op}
    (h : ProcessHandles perBackendConcurrency s op r s') :
    s.table.map Backend.id ⊆ s'.table.map Backend.id ∧
    (∀ rows, (⟨op, r⟩ : Event) = ⟨.listBackends, .ok rows⟩ → rows.Perm s.table ∧ s' = s) ∧
    (∀ model pairs, (⟨op, r⟩ : Event) = ⟨.candidates model, .ok pairs⟩ →
      s.registry.candidates model = some pairs) ∧
    (s'.registry = s.registry ∨ ∃ backends, op = .install backends ∧
      ∀ model, ∀ backend ∈ s'.registry.byModel model, backend ∈ backends) := by
  cases h with
  | candidates hpairs =>
    refine ⟨List.Subset.refl _, by simp, fun model pairs heq => ?_, .inl rfl⟩
    obtain ⟨hop, hr⟩ := Sigma.mk.inj heq
    obtain rfl := Op.candidates.inj hop
    rwa [← Except.ok.inj (eq_of_heq hr)]
  | upsert body uuid4 => exact ⟨map_id_upsert _ _ _, by simp, by simp, .inl rfl⟩
  | listBackends hrows =>
    refine ⟨List.Subset.refl _, fun rows heq => ?_, by simp, .inl rfl⟩
    rw [← Except.ok.inj (eq_of_heq (Sigma.mk.inj heq).2)]
    exact ⟨hrows, rfl⟩
  | @swap backends _ _ _ _ hinstall hmade hnew =>
    refine ⟨List.Subset.refl _, by simp, by simp, .inr ⟨backends, rfl, ?_⟩⟩
    intro model backend hbackend
    dsimp only at hbackend
    rw [BackendRegistry.byModel_of_install hinstall] at hbackend
    exact (List.mem_filter.mp (List.mem_mergeSort.mp hbackend)).1
  | elsewhere hop =>
    refine ⟨List.Subset.refl _, ?_, ?_, .inl rfl⟩
    · rintro rows heq
      obtain rfl := congrArg Sigma.fst heq
      simp [Op.isLocal] at hop
    · rintro model pairs heq
      obtain rfl := congrArg Sigma.fst heq
      simp [Op.isLocal] at hop
  | _ => exact ⟨List.Subset.refl _, by simp, by simp, .inl rfl⟩

/-- An operation on the stores reads and changes neither the table nor the registry. -/
theorem DeployedHandles.book_cases {s s' : Deployed} {op : Op} {r : Reply op}
    (h : DeployedHandles replicas answers perBackendConcurrency s op r s') :
    s.table.map Backend.id ⊆ s'.table.map Backend.id ∧
    (∀ rows, (⟨op, r⟩ : Event) = ⟨.listBackends, .ok rows⟩ → rows.Perm s.table ∧ s' = s) ∧
    (∀ model pairs, (⟨op, r⟩ : Event) = ⟨.candidates model, .ok pairs⟩ →
      s.registry.candidates model = some pairs) ∧
    (s'.registry = s.registry ∨ ∃ backends, op = .install backends ∧
      ∀ model, ∀ backend ∈ s'.registry.byModel model, backend ∈ backends) := by
  obtain ⟨stores, hop, -, rfl⟩ | ⟨-, -, hprocess⟩ := h
  · refine ⟨List.Subset.refl _, fun rows heq => ?_, fun model pairs heq => ?_, .inl rfl⟩
    · obtain rfl := congrArg Sigma.fst heq
      simp [Op.isShared] at hop
    · obtain rfl := congrArg Sigma.fst heq
      simp [Op.isShared] at hop
  · exact hprocess.book_cases

/-- One operation that writes only what has been read keeps the book. -/
theorem LogBook.handle {s s' : Deployed} {h : List (Nat × Event)} (hbook : LogBook s h)
    {op : Op} {r : Reply op} (hallowed : WritesListed h op)
    (hhandle : DeployedHandles replicas answers perBackendConcurrency s op r s') (tag : Nat) :
    LogBook s' (h ++ [(tag, ⟨op, r⟩)]) ∧ RepliesListed (h ++ [(tag, ⟨op, r⟩)]) op r := by
  obtain ⟨htable, hread, hoffered, hregistry⟩ := hhandle.book_cases
  have hle : h ⊆ h ++ [(tag, ⟨op, r⟩)] := List.subset_append_left _ _
  refine ⟨⟨fun backend hlisted => ?_, fun model backend hbackend => ?_, ?_⟩, ?_⟩
  · obtain hold | ⟨tag', rows, heq, hrow⟩ := listed_concat hlisted
    · exact htable (hbook.table backend hold)
    · obtain ⟨hperm, rfl⟩ := hread rows (Prod.mk.inj heq).2
      exact List.mem_map_of_mem (hperm.mem_iff.mp hrow)
  · obtain hsame | ⟨backends, rfl, hinstalled⟩ := hregistry
    · exact (hbook.registry model backend (hsame ▸ hbackend)).later hle
    · exact (hallowed backend (hinstalled model backend hbackend)).later hle
  · intro tag' row r' hmem
    obtain hold | hlast := List.mem_append.mp hmem
    · exact (hbook.rows tag' row r' hold).later hle
    · have hevent := congrArg Sigma.fst (Prod.mk.inj (List.mem_singleton.mp hlast)).2
      obtain rfl : op = .insertLog row := hevent.symm
      exact LogRow.later hallowed hle
  · unfold RepliesListed
    split
    · rename_i rows
      exact fun backend hbackend =>
        ⟨tag, rows, List.mem_append_right _ (List.mem_singleton_self _), hbackend⟩
    · rename_i model pairs
      intro pair hpair
      refine (hbook.registry model pair.1 ?_).later hle
      rw [← BackendRegistry.map_fst_candidates (hoffered model pairs rfl)]
      exact List.mem_map_of_mem hpair
    · trivial

def logBook (gw : RequestOrchestrator) (table : List Backend) (purpose : Nat → Purpose) :
    Pool.Discipline (growing replicas answers perBackendConcurrency gw table purpose) where
  contract _ := listedContract
  result _ _ _ := True
  Inv := LogBook
  initial := ⟨fun _ ⟨_, _, hmem, _⟩ => absurd hmem (by simp),
    fun _ _ hmem => (List.not_mem_nil hmem).elim, fun _ _ _ hmem => absurd hmem (by simp)⟩
  start _ _ hstart _ := hstart.starts.listed
  lasting _ _ _ hle _ _ hr := RepliesListed.later hr hle.subset
  handle tag _ _ _ _ _ hbook hallowed hhandle := hbook.handle hallowed hhandle tag
  drift s h s' hbook := by
    rintro ⟨table, hids, rfl⟩
    exact ⟨fun backend hlisted => hids (hbook.table backend hlisted), hbook.registry, hbook.rows⟩

end Deployment

/-- In every run in which no backend is deleted, every row that a request inserts into
`request_log` meets the constraints of the table then and from then on, and is the row of a
cache hit, of an answer of a backend that a reload has read, or of a request without answer. -/
theorem rows_meet_constraints (replicas : Replicas) (answers : (op : Op) → Reply op → Prop)
    (perBackendConcurrency : Nat) (gw : RequestOrchestrator) (table : List Backend)
    (purpose : Nat → Purpose) {w : Pool Nat Deployed Op Reply Outcome}
    (hreach : Pool.Reachable (growing replicas answers perBackendConcurrency gw table purpose) w)
    {tag : Nat} {row : RequestLog} {r : Reply (.insertLog row)}
    (hmem : (tag, ⟨.insertLog row, r⟩) ∈ w.history) :
    Constraints w.state.table row ∧ LogRow w.history row := by
  have hbook : LogBook w.state w.history := ((logBook gw table purpose).sound hreach).1
  have hrow := hbook.rows tag row r hmem
  exact ⟨hrow.constraints hbook.table, hrow⟩

/-- The row names this backend. -/
def logsBackend (backendId : Uuid) : Event → Bool
  | ⟨.insertLog row, _⟩ => row.backendId = some backendId
  | _ => false

theorem exists_of_logsBackend {backendId : Uuid} {ev : Event} (h : logsBackend backendId ev) :
    ∃ row r, ev = ⟨.insertLog row, r⟩ ∧ row.backendId = some backendId := by
  unfold logsBackend at h
  split at h
  · exact ⟨_, _, rfl, of_decide_eq_true h⟩
  · simp at h

/-- The first request is answered by the only backend. -/
theorem rows_meet_constraints_served : ∃ row r,
    (2, ⟨.insertLog row, r⟩) ∈ processRun.history ∧ row.backendId = some 0 ∧
    Constraints processRun.state.table row ∧ LogRow processRun.history row := by
  have hlogged : processRun.history.any (fun e => e.1 = 2 && logsBackend 0 e.2) = true := by
    unfold processRun processTasks handleComplete handleStream
    rw [walk_evaluates]
    decide +kernel
  obtain ⟨⟨tag, ev⟩, hmem, hev⟩ := List.any_eq_true.mp hlogged
  obtain ⟨rfl, hev⟩ : tag = 2 ∧ logsBackend 0 ev = true := by simpa using hev
  obtain ⟨row, r, rfl, hrow⟩ := exists_of_logsBackend hev
  let S := growing sampleReplicas (fun _ _ => True) 1 zeroDigest flaky reloadsFirst
  have hhandle : ∀ s op, S.handle s op (answerDeployed sampleReplicas 1 s op).1
      (answerDeployed sampleReplicas 1 s op).2 :=
    answerDeployed_handle sampleReplicas 1 zeroDigest flaky reloadsFirst
  have hreach : Pool.Reachable S processRun :=
    .schedule hhandle (.starts .initial processTasks_start) _
  exact ⟨row, r, hmem, hrow, rows_meet_constraints sampleReplicas _ 1 zeroDigest flaky reloadsFirst
    hreach hmem⟩

end InferenceGateway.Orchestrator
