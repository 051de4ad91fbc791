import InferenceGateway.Api.Keys
import InferenceGateway.Orchestrator.AdminUpsert
import Mathlib.Data.List.Dedup
import Mathlib.Data.String.Basic

/-!
# The models that are listed and those that are served

`GET /v1/models` lists the models of the table, and a request is routed by the registry, which is
that of the last reload that got to swap its maps. The two agree about the table as it was then.
-/
namespace InferenceGateway.Api
open Library Orchestrator Persistence Backends Redis

/-- `list_models`: `sorted({b.model for b in backends if b.enabled})`. -/
def listModels (table : List Backend) : List String :=
  (((table.filter (·.enabled)).map Backend.model).dedup).mergeSort fun a b => a ≤ b

/-- `BackendRepo.list_enabled_for_model`, for a table that is scanned in this order. -/
def listEnabledForModel (table : List Backend) (model : String) : List Backend :=
  (table.filter fun b => b.model = model ∧ b.enabled = true).mergeSort
    fun a b => a.priority ≤ b.priority

inductive AdminCall where
  | upsertBackend (adminKey : Option String) (body : BackendUpsert) (env : AdminSurroundings)
  /-- There is no endpoint for it: an operator leaves these rows in the table. -/
  | rewriteTable (table : List Backend)

inductive AdminReply where
  | created (backend : Backend)
  | refused (e : HttpException)
  | raised (e : Raised)
  | done

section Calls
variable (settings : KeySettings)

/-- `POST /admin/backends`. -/
def serveUpsert (w : World) (adminKey : Option String) (body : BackendUpsert)
    (env : AdminSurroundings) : AdminReply × World :=
  match requireAdminKey settings adminKey with
  | .error e => (.refused e, w)
  | .ok _ =>
    let run := (upsertBackend body).exec env.answer w
    (match run.1 with
      | .ok backend => .created backend
      | .error e => .raised e, run.2)

def serveAdmin (w : World) : AdminCall → AdminReply × World
  | .upsertBackend adminKey body env => serveUpsert settings w adminKey body env
  | .rewriteTable table => (.done, { w with table })

/-- The administration of a process that starts with an empty table and registry. -/
def administration : Service World AdminCall AdminReply :=
  ⟨⟨Strings.empty, [], [], {}⟩, serveAdmin settings⟩

/-- The call gets to swap the maps of the registry. -/
def Swaps (w : World) : AdminCall → Prop
  | .upsertBackend adminKey body env => adminKey = some settings.adminKey ∧
      env.commit = .ok () ∧ env.Loads (BackendRepo.upsert w.table body env.uuid4).1
  | .rewriteTable _ => False

end Calls

section Models
variable {settings : KeySettings} {table : List Backend} {w : World} {c : AdminCall}

theorem mem_listModels {model : String} :
    model ∈ listModels table ↔ ∃ b ∈ table, b.enabled = true ∧ b.model = model := by
  unfold listModels
  rw [List.mem_mergeSort, List.mem_dedup, List.mem_map]
  simp [and_assoc]

/-- No model is listed twice, and they are in order. -/
theorem sorted_listModels (table : List Backend) : (listModels table).Pairwise (· < ·) := by
  have hle : (listModels table).Pairwise fun a b => decide (a ≤ b) = true :=
    List.pairwise_mergeSort
      (fun a b c hab hbc => decide_eq_true ((of_decide_eq_true hab).trans (of_decide_eq_true hbc)))
      (fun a b => by simpa using le_total a b) _
  have hne : (listModels table).Nodup :=
    (List.mergeSort_perm _ _).nodup_iff.mpr (List.nodup_dedup _)
  exact (hle.and hne).imp fun h => lt_of_le_of_ne (of_decide_eq_true h.1) h.2

/-- The registry routes as this table says: its candidates are what `list_enabled_for_model` answers
for some scan of it, so the models that have some are those that are listed. -/
structure Serves (registry : BackendRegistry) (table : List Backend) : Prop where
  candidates : ∃ rows, rows.Perm table ∧ ∀ model, ∃ pairs,
    registry.candidates model = some pairs ∧ pairs.map Prod.fst = listEnabledForModel rows model
  listed : ∀ model, model ∈ listModels table ↔
    ∃ pairs, registry.candidates model = some pairs ∧ pairs ≠ []

theorem listEnabledForModel_ne_nil_iff {rows : List Backend} (hperm : rows.Perm table)
    {model : String} : listEnabledForModel rows model ≠ [] ↔ model ∈ listModels table := by
  have hexists : listEnabledForModel rows model ≠ [] ↔ ∃ b, b ∈ listEnabledForModel rows model :=
    ⟨List.exists_mem_of_ne_nil _, fun ⟨_, hb⟩ => List.ne_nil_of_mem hb⟩
  rw [mem_listModels, hexists]
  refine exists_congr fun b => ?_
  simp only [listEnabledForModel, List.mem_mergeSort, List.mem_filter, hperm.mem_iff,
    decide_eq_true_iff]
  exact and_congr_right fun _ => and_comm

theorem serves_of_candidates {registry : BackendRegistry} {rows : List Backend}
    (hperm : rows.Perm table) (h : ∀ model, ∃ pairs, registry.candidates model = some pairs ∧
      pairs.map Prod.fst = listEnabledForModel rows model) : Serves registry table := by
  refine ⟨⟨rows, hperm, h⟩, fun model => ?_⟩
  obtain ⟨pairs, hpairs, hrows⟩ := h model
  rw [← listEnabledForModel_ne_nil_iff hperm, ← hrows, hpairs]
  simp

/-- A registry lists the rows that a reload has read like the query does. -/
theorem serves_install {registry registry' : BackendRegistry} {env : AdminSurroundings}
    {oldClients : List Client}
    (h : registry.install env.clientFactory (env.scan table) = .ok (registry', oldClients)) :
    Serves registry' table := by
  refine serves_of_candidates (env.scan_perm table) fun model => ?_
  obtain ⟨pairs, hpairs, -⟩ := BackendRegistry.reflects_install h model
  refine ⟨pairs, hpairs, ?_⟩
  rw [BackendRegistry.map_fst_candidates hpairs, BackendRegistry.byModel_of_install h,
    BackendRegistry.enabledFor, listEnabledForModel]
  refine congrArg (fun l => List.mergeSort l _) (List.filter_congr fun b _ => ?_)
  simp [and_comm]

theorem serves_empty : Serves {} [] := by
  refine serves_of_candidates List.Perm.rfl fun model => ⟨[], rfl, ?_⟩
  simp [listEnabledForModel]

/-- Once committed, the row stays, and the maps are swapped if the reload gets to it. -/
theorem exec_upsertBackend_committed (w : World) (body : BackendUpsert) {env : AdminSurroundings}
    (hcommit : env.commit = .ok ()) :
    let table := (BackendRepo.upsert w.table body env.uuid4).1
    let run := (upsertBackend body).exec env.answer w
    (env.Loads table ∧ Serves run.2.registry run.2.table) ∨
    (¬ env.Loads table ∧ run.2.registry = w.registry ∧ ∃ e, run.1 = .error e) := by
  intro table run
  by_cases hloads : env.Loads table
  · obtain ⟨registry, hinstall, hreload⟩ := env.exec_reload_of_loads (w := { w with table }) hloads
    have hworld : run.2 = { w with table, registry } := by
      have hcommitted := env.exec_commit w body hcommit
      simp only [run, upsertBackend]
      rw [Action.exec_bind_ok hcommitted]
      cases hclose : env.acloses (w.registry.clients.map Prod.snd) with
      | ok u => rw [Action.exec_bind_ok (hreload.trans (by rw [hclose]))]; rfl
      | error e => rw [Action.exec_bind_error (hreload.trans (by rw [hclose]))]
    rw [hworld]
    exact .inl ⟨hloads, serves_install hinstall⟩
  · obtain ⟨e, hrun⟩ := env.exec_upsert_of_not_loads w body hcommit hloads
    have hrun : run = _ := hrun
    rw [hrun]
    exact .inr ⟨hloads, rfl, e, rfl⟩

/-- A call that gets to the swap routes by the table that it has committed, and any other leaves the
registry alone and creates nothing. -/
theorem serveAdmin_cases (settings : KeySettings) (w : World) (c : AdminCall) :
    (Swaps settings w c ∧
      Serves (serveAdmin settings w c).2.registry (serveAdmin settings w c).2.table) ∨
    (¬ Swaps settings w c ∧ (serveAdmin settings w c).2.registry = w.registry ∧
      ∀ backend, (serveAdmin settings w c).1 ≠ .created backend) := by
  cases c with
  | rewriteTable table => exact .inr ⟨id, rfl, fun _ => by simp [serveAdmin]⟩
  | upsertBackend adminKey body env =>
    by_cases hadmin : adminKey = some settings.adminKey
    · have hallowed : requireAdminKey settings adminKey = .ok () := if_neg (not_not.mpr hadmin)
      cases hcommit : env.commit with
      | error e =>
        have hrun : (upsertBackend body).exec env.answer w = (.error e, w) :=
          Action.exec_bind_error (by simp [AdminSurroundings.answer, hcommit])
        refine .inr ⟨fun h => ?_, ?_, fun _ => ?_⟩
        · exact absurd (hcommit.symm.trans h.2.1) (by simp)
        · simp [serveAdmin, serveUpsert, hallowed, hrun]
        · simp [serveAdmin, serveUpsert, hallowed, hrun]
      | ok u =>
        have hworld : (serveAdmin settings w (.upsertBackend adminKey body env)).2 =
            ((upsertBackend body).exec env.answer w).2 := by
          simp [serveAdmin, serveUpsert, hallowed]
        rw [hworld]
        obtain ⟨hloads, hserves⟩ | ⟨hloads, hregistry, e, he⟩ :=
          exec_upsertBackend_committed w body hcommit
        · exact .inl ⟨⟨hadmin, hcommit, hloads⟩, hserves⟩
        · exact .inr ⟨fun h => hloads h.2.2, hregistry, fun _ => by
            simp [serveAdmin, serveUpsert, hallowed, he]⟩
    · have hrefused : requireAdminKey settings adminKey =
          .error ⟨401, "invalid admin key", []⟩ := if_pos hadmin
      have hserve : serveAdmin settings w (.upsertBackend adminKey body env) =
          (.refused ⟨401, "invalid admin key", []⟩, w) := by
        simp [serveAdmin, serveUpsert, hrefused]
      rw [hserve]
      exact .inr ⟨fun h => hadmin h.1, rfl, by simp⟩

end Models

/-- After every sequence of calls and of tables left behind the registry, whatever raises, the
models that are served are those that were listed after the last call that got to swap the maps;
the list has each model once, in order. An upsert that is answered is such a call, so right after
it the two agree. -/
theorem served_models (settings : KeySettings) (calls : List AdminCall) :
    (listModels ((administration settings).state calls).table).Pairwise (· < ·) ∧
    (∃ before, before <+: calls ∧
      Serves ((administration settings).state calls).registry
        ((administration settings).state before).table ∧
      (before = [] ∨ ∃ earlier c, before = earlier ++ [c] ∧
        Swaps settings ((administration settings).state earlier) c) ∧
      ∀ earlier c, before <+: earlier → earlier ++ [c] <+: calls →
        ¬ Swaps settings ((administration settings).state earlier) c) ∧
    ∀ earlier c backend, calls = earlier ++ [c] →
      (serveAdmin settings ((administration settings).state earlier) c).1 = .created backend →
      Serves ((administration settings).state calls).registry
        ((administration settings).state calls).table := by
  refine ⟨sorted_listModels _, ?_, ?_⟩
  · induction calls using List.reverseRecOn with
    | nil =>
      refine ⟨[], List.prefix_rfl, serves_empty, .inl rfl, fun earlier c _ hprefix => ?_⟩
      exact absurd (List.prefix_nil.mp hprefix) (by simp)
    | append_singleton calls last ih =>
      rw [Service.state_concat]
      obtain ⟨hswaps, hserves⟩ | ⟨hquiet, hregistry, -⟩ :=
        serveAdmin_cases settings ((administration settings).state calls) last
      · refine ⟨calls ++ [last], List.prefix_rfl, ?_, .inr ⟨calls, last, rfl, hswaps⟩, ?_⟩
        · rw [Service.state_concat]
          exact hserves
        · intro earlier c hafter hprefix
          have hlength := hprefix.length_le
          have hlength' := hafter.length_le
          simp only [List.length_append, List.length_singleton] at hlength hlength'
          omega
      · obtain ⟨before, hbefore, hserves, hlast, hlater⟩ := ih
        refine ⟨before, hbefore.trans (List.prefix_append _ _), ?_, hlast, ?_⟩
        · have hsame : ((administration settings).serve
              ((administration settings).state calls) last).2.registry =
              ((administration settings).state calls).registry := hregistry
          rw [hsame]
          exact hserves
        · intro earlier c hafter hprefix
          obtain heq | hprefix := List.prefix_concat_iff.mp hprefix
          · obtain ⟨rfl, hc⟩ := List.append_inj' heq rfl
            obtain rfl := List.singleton_inj.mp hc
            exact hquiet
          · exact hlater earlier c hafter hprefix
  · rintro earlier c backend rfl hcreated
    rw [Service.state_concat]
    obtain ⟨-, hserves⟩ | ⟨-, -, hnone⟩ :=
      serveAdmin_cases settings ((administration settings).state earlier) c
    · exact hserves
    · exact absurd hcreated (hnone backend)

end InferenceGateway.Api
