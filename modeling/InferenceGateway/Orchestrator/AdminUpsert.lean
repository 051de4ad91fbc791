import InferenceGateway.Library.Execution
import InferenceGateway.Orchestrator.World

/-!
# An upsert on its own

`POST /admin/backends` commits its row first and reloads afterwards. What can raise is
part of the surroundings: the transaction, the read of the table, the exit of its session,
the client factory, and closing the old clients.
-/
namespace InferenceGateway.Orchestrator
open Library Library.Action Backends Persistence Redis

/-- What an admin request meets: what raises, how the client factory answers, the fresh
identifier and the order in which the rows are scanned. -/
structure AdminSurroundings where
  commit : Except Raised Unit
  read : Except Raised Unit
  exit : Except Raised Unit
  clientFactory : Backend → Except Raised Client
  aclose : Client → Except Raised Unit
  uuid4 : Uuid
  scan : List Backend → List Backend
  scan_perm : ∀ rows, (scan rows).Perm rows

namespace AdminSurroundings

variable (env : AdminSurroundings)

/-- How the world answers an admin request that nothing else runs beside. -/
def answer : Program.Handler Op Reply World := fun w op =>
  match op with
  | .upsert body =>
    match env.commit with
    | .ok _ => (.ok (BackendRepo.upsert w.table body env.uuid4).2,
        { w with table := (BackendRepo.upsert w.table body env.uuid4).1 })
    | .error e => (.error e, w)
  | .listBackends => (env.read.map fun _ => env.scan w.table, w)
  | .closeSession => (env.exit, w)
  | .install backends =>
    match w.registry.install env.clientFactory backends with
    | .ok (registry, oldClients) => (.ok oldClients, { w with registry })
    | .error e => (.error e, w)
  | .aclose client => (env.aclose client, w)
  | _ => (.error (.failure "not an admin operation"), w)

/-- These are answers that the shared world can give. -/
theorem answer_handles (cache : TwoTierCache) (w : World) (op : Op) :
    Handles cache w op (env.answer w op).1 (env.answer w op).2 := by
  cases op with
  | upsert body =>
    unfold answer
    dsimp only
    split
    · exact .inl ⟨env.uuid4, rfl, rfl⟩
    · exact .inr ⟨rfl, _, rfl⟩
  | listBackends =>
    refine ⟨rfl, ?_⟩
    cases hread : env.read with
    | ok u => exact .inl ⟨env.scan w.table, env.scan_perm _, by simp [answer, hread, Except.map]⟩
    | error e => exact .inr ⟨e, by simp [answer, hread, Except.map]⟩
  | install backends =>
    refine ⟨env.clientFactory, ?_⟩
    cases hinstall : w.registry.install env.clientFactory backends with
    | ok new => simp [answer, hinstall]
    | error e => simp [answer, hinstall]
  | exactPut | insertEntry => exact .inr ⟨rfl, _, rfl⟩
  | exactGet | findSimilar | candidates => exact ⟨rfl, .inr ⟨_, rfl⟩⟩
  | _ => exact rfl

/-! ## A reload -/

/-- The end of closing clients one after the other. -/
def acloses : List Client → Except Raised Unit
  | [] => .ok ()
  | client :: clients =>
    match env.aclose client with
    | .ok _ => acloses clients
    | .error e => .error e

theorem acloses_eq_ok_iff {clients : List Client} :
    env.acloses clients = .ok () ↔ ∀ client ∈ clients, env.aclose client = .ok () := by
  induction clients with
  | nil => simp [acloses]
  | cons client clients ih =>
    unfold acloses
    cases hclose : env.aclose client <;> simp [hclose, ih]

theorem exec_acloseAll (clients : List Client) (w : World) :
    (acloseAll clients).exec env.answer w = (env.acloses clients, w) := by
  induction clients with
  | nil => rfl
  | cons client clients ih =>
    unfold acloseAll acloses
    cases hclose : env.aclose client with
    | ok u => rw [exec_bind_ok (a := u) (t := w) (by simp [answer, hclose]), ih]
    | error e => exact exec_bind_error (by simp [answer, hclose])

/-- A reload of these rows gets to swap the maps. -/
structure Loads (table : List Backend) : Prop where
  read : env.read = .ok ()
  exit : env.exit = .ok ()
  made : ∀ row ∈ table, row.enabled → ∃ client, env.clientFactory row = .ok client

/-- A reload that does not get to the swap raises and changes nothing. -/
theorem exec_reload_of_not_loads {w : World} (h : ¬ env.Loads w.table) :
    ∃ e, reload.exec env.answer w = (.error e, w) := by
  unfold reload
  cases hread : env.read with
  | error e => exact ⟨e, exec_bind_error (by simp [answer, hread, Except.map])⟩
  | ok u =>
    rw [exec_bind_ok (a := env.scan w.table) (t := w) (by simp [answer, hread, Except.map])]
    cases hexit : env.exit with
    | error e => exact ⟨e, exec_bind_error (by simp [answer, hexit])⟩
    | ok v =>
      rw [exec_bind_ok (a := v) (t := w) (by simp [answer, hexit])]
      have hunmade : ¬ ∃ maps, BackendRegistry.build env.clientFactory (env.scan w.table) {} =
          .ok maps := fun hbuilt => h
        ⟨hread, hexit, fun row hrow => BackendRegistry.exists_build_iff.mp hbuilt row
          ((env.scan_perm _).mem_iff.mpr hrow)⟩
      cases hbuild : BackendRegistry.build env.clientFactory (env.scan w.table) {} with
      | ok maps => exact absurd ⟨maps, hbuild⟩ hunmade
      | error e => exact ⟨e, exec_bind_error (by simp [answer, BackendRegistry.install, hbuild])⟩

/-- Otherwise it swaps the maps, and ends as closing the old clients ends. -/
theorem exec_reload_of_loads {w : World} (h : env.Loads w.table) :
    ∃ registry, w.registry.install env.clientFactory (env.scan w.table) =
        .ok (registry, w.registry.clients.map Prod.snd) ∧
      reload.exec env.answer w =
        (env.acloses (w.registry.clients.map Prod.snd), { w with registry }) := by
  obtain ⟨hread, hexit, hmade⟩ := h
  obtain ⟨maps, hbuild⟩ : ∃ maps, BackendRegistry.build env.clientFactory (env.scan w.table) {} =
      .ok maps := BackendRegistry.exists_build_iff.mpr fun row hrow =>
    hmade row ((env.scan_perm _).mem_iff.mp hrow)
  have hinstall : w.registry.install env.clientFactory (env.scan w.table) =
      .ok (maps.sortByPriority, w.registry.clients.map Prod.snd) := by
    rw [BackendRegistry.install, hbuild]
  refine ⟨maps.sortByPriority, hinstall, ?_⟩
  unfold reload
  rw [exec_bind_ok (a := env.scan w.table) (t := w) (by simp [answer, hread, Except.map]),
    exec_bind_ok (a := ()) (t := w) (by simp [answer, hexit]),
    exec_bind_ok (a := w.registry.clients.map Prod.snd)
      (t := { w with registry := maps.sortByPriority }) (by simp [answer, hinstall]),
    exec_acloseAll]

/-! ## All or nothing -/

variable (w : World) (body : BackendUpsert)

/-- The table and the candidates contain the configuration of the request, as this row. The
costs are those of the request up to the precision of their columns. -/
structure Configured (row : Backend) : Prop where
  name : row.name = body.name
  assigned : BackendRepo.assign row body = row
  committed : row ∈ w.table
  listed : ∃ pairs client, w.registry.candidates body.model = some pairs ∧ (row, client) ∈ pairs

/-- The request succeeds and the new configuration is in the table and the registry, or it
raises and both are as before. -/
def AllOrNothing : Prop :=
  match (upsertBackend body).exec env.answer w with
  | (.ok backend, w') => ∃ row, BackendRepo.posted row body = backend ∧ Configured w' body row
  | (.error _, w') => w'.table = w.table ∧ w'.registry = w.registry

/-- The transaction is rolled back; or nothing raises after it and the row is not a disabled
one; or the maps cannot be swapped and the row had this configuration before. -/
def Atomic : Prop :=
  (∃ e, env.commit = .error e) ∨
  (env.Loads (BackendRepo.upsert w.table body env.uuid4).1 ∧
    (∀ item ∈ w.registry.clients, env.aclose item.2 = .ok ()) ∧
    ∀ row, w.table.find? (fun row => row.name = body.name) = some row → row.enabled = true) ∨
  (¬ env.Loads (BackendRepo.upsert w.table body env.uuid4).1 ∧
    BackendRepo.Unchanged w.table body)

/-- A new client is another object than those in the registry. -/
def MakesNew : Prop := ∀ row client, env.clientFactory row = .ok client →
  client ∉ w.registry.clients.map Prod.snd

theorem listed_iff {registry : BackendRegistry} {table : List Backend} {row : Backend}
    (hreflects : registry.Reflects table) (hrow : row ∈ table) :
    (∃ pairs client, registry.candidates row.model = some pairs ∧ (row, client) ∈ pairs) ↔
      row.enabled = true := by
  obtain ⟨pairs, hpairs, hperm⟩ := hreflects row.model
  have hmem : (∃ client, (row, client) ∈ pairs) ↔
      row ∈ BackendRegistry.enabledFor row.model table := by
    rw [← hperm.mem_iff]
    simp
  have henabled : row ∈ BackendRegistry.enabledFor row.model table ↔ row.enabled = true := by
    simp [BackendRegistry.enabledFor, hrow]
  rw [← henabled, ← hmem, hpairs]
  simp

variable {env w} in
/-- After a swap the registry is another one, unless it had no clients. -/
theorem MakesNew.clients_eq_nil (h : MakesNew env w) {backends : List Backend}
    {oldClients : List Client}
    (hinstall : w.registry.install env.clientFactory backends = .ok (w.registry, oldClients)) :
    w.registry.clients = [] := by
  refine List.eq_nil_iff_forall_not_mem.mpr fun item hitem => ?_
  obtain ⟨row, -, hmade⟩ := (BackendRegistry.clients_install hinstall).1 item hitem
  exact h row item.2 hmade (List.mem_map_of_mem hitem)

theorem exec_commit {u : Unit} (hcommit : env.commit = .ok u) :
    (call (.upsert body)).exec env.answer w = (.ok (BackendRepo.upsert w.table body env.uuid4).2,
      { w with table := (BackendRepo.upsert w.table body env.uuid4).1 }) := by
  simp [answer, hcommit]

/-- The row stays if it is committed and the reload does not get to the swap. -/
theorem exec_upsert_of_not_loads {u : Unit} (hcommit : env.commit = .ok u)
    (h : ¬ env.Loads (BackendRepo.upsert w.table body env.uuid4).1) :
    ∃ e, (upsertBackend body).exec env.answer w =
      (.error e, { w with table := (BackendRepo.upsert w.table body env.uuid4).1 }) := by
  obtain ⟨e, hreload⟩ := env.exec_reload_of_not_loads
    (w := { w with table := (BackendRepo.upsert w.table body env.uuid4).1 }) h
  refine ⟨e, ?_⟩
  unfold upsertBackend
  rw [exec_bind_ok (exec_commit env w body hcommit), exec_bind_error hreload]

/-- Once committed, an upsert is all or nothing if the reload ends well and shows the row,
or does not get to the swap and there was nothing to change. -/
theorem allOrNothing_of_commit (hnew : MakesNew env w) {u : Unit} (hcommit : env.commit = .ok u) :
    AllOrNothing env w body ↔
      (env.Loads (BackendRepo.upsert w.table body env.uuid4).1 ∧
        (∀ item ∈ w.registry.clients, env.aclose item.2 = .ok ()) ∧
        ∀ row, w.table.find? (fun row => row.name = body.name) = some row → row.enabled = true) ∨
      (¬ env.Loads (BackendRepo.upsert w.table body env.uuid4).1 ∧
        BackendRepo.Unchanged w.table body) := by
  unfold AllOrNothing
  by_cases hloads : env.Loads (BackendRepo.upsert w.table body env.uuid4).1
  · obtain ⟨registry, hinstall, hreload⟩ := env.exec_reload_of_loads
      (w := { w with table := (BackendRepo.upsert w.table body env.uuid4).1 }) hloads
    have hcloses : env.acloses (w.registry.clients.map Prod.snd) = .ok () ↔
        ∀ item ∈ w.registry.clients, env.aclose item.2 = .ok () := by
      rw [acloses_eq_ok_iff, List.forall_mem_map]
    simp only [hloads, not_true, false_and, or_false, true_and, ← hcloses]
    unfold upsertBackend
    rw [exec_bind_ok (exec_commit env w body hcommit)]
    cases hclose : env.acloses (w.registry.clients.map Prod.snd) with
    | error e =>
      rw [exec_bind_error (hreload.trans (by rw [hclose]))]
      refine iff_of_false (fun h => ?_) (by simp)
      obtain rfl : registry = w.registry := h.2
      have hnil := hnew.clients_eq_nil hinstall
      rw [hnil] at hclose
      exact nomatch hclose
    | ok v =>
      rw [exec_bind_ok (hreload.trans (by rw [hclose])), exec_pure]
      have hreflects : registry.Reflects (BackendRepo.upsert w.table body env.uuid4).1 :=
        (BackendRegistry.reflects_install hinstall).of_perm (env.scan_perm _)
      have hmem : BackendRepo.upserted w.table body env.uuid4 ∈
          (BackendRepo.upsert w.table body env.uuid4).1 := BackendRepo.upserted_mem
      obtain ⟨hname, hassigned⟩ := @BackendRepo.upserted_assigned w.table body env.uuid4
      have hlisted := listed_iff hreflects hmem
      rw [BackendRepo.upserted_enabled_iff] at hlisted
      simp only [true_and, ← hlisted]
      constructor
      · rintro ⟨row, hposted, hrow⟩
        have hsame : row = BackendRepo.upserted w.table body env.uuid4 := calc
          row = BackendRepo.assign row body := hrow.assigned.symm
          _ = BackendRepo.assign (BackendRepo.posted row body) body := rfl
          _ = BackendRepo.upserted w.table body env.uuid4 :=
            congrArg (BackendRepo.assign · body) hposted
        subst hsame
        exact hrow.listed
      · exact fun h => ⟨_, BackendRepo.posted_upserted, hname, hassigned, hmem, h⟩
  · obtain ⟨e, hupsert⟩ := exec_upsert_of_not_loads env w body hcommit hloads
    rw [hupsert]
    simp [hloads, BackendRepo.upsert_eq_self_iff]

/-- An upsert is all or nothing exactly if it is atomic by these conditions on the request,
the table and what raises. -/
theorem allOrNothing_iff (hnew : MakesNew env w) : AllOrNothing env w body ↔ Atomic env w body := by
  unfold Atomic
  cases hcommit : env.commit with
  | error e =>
    refine iff_of_true ?_ (.inl ⟨e, rfl⟩)
    have hupsert : (call (.upsert body)).exec env.answer w = (.error e, w) := by
      simp [answer, hcommit]
    unfold AllOrNothing upsertBackend
    rw [exec_bind_error hupsert]
    exact ⟨rfl, rfl⟩
  | ok u =>
    rw [allOrNothing_of_commit env w body hnew hcommit]
    simp

/-! ## A backend without a key -/

/-- Nothing raises but the factory, which has this key for hosted backends and makes
clients with this serial number. -/
def withKey (hostedApiKey : Option String) (serial : Nat) : AdminSurroundings where
  commit := .ok ()
  read := .ok ()
  exit := .ok ()
  clientFactory := defaultClientFactory .failure (fun name => "'" ++ name ++ "'")
    (fun _ _ _ => .ok ⟨serial⟩) (fun _ _ _ _ => .ok ⟨serial⟩) "http://localhost:11434" hostedApiKey
  aclose _ := .ok ()
  uuid4 := 7
  scan rows := rows
  scan_perm _ := .refl _

def hostedBody : BackendUpsert := ⟨"cloud", .hosted, "https://api", "m", 100, 0, 0⟩

/-- One backend and its client. -/
def oneBackend : World where
  l1 := Strings.empty
  entries := []
  table := [⟨0, "local", .ollama, "e", "m", 100, true, 0, 0⟩]
  registry :=
    { clients := [(0, ⟨0⟩)]
      byModel := fun model => if model = "m" then [⟨0, "local", .ollama, "e", "m", 100, true, 0, 0⟩]
        else [] }

theorem makesNew_withKey (hostedApiKey : Option String) {serial : Nat} (h : serial ≠ 0) :
    MakesNew (withKey hostedApiKey serial) oneBackend := by
  intro row client hmade
  have hclient : client = ⟨serial⟩ := by
    simp only [withKey, defaultClientFactory] at hmade
    grind
  simp [oneBackend, hclient, h]

theorem makes_withKey {serial : Nat} (row : Backend) :
    ∃ client, (withKey (some "sk") serial).clientFactory row = .ok client := by
  cases htype : row.type <;> simp [withKey, defaultClientFactory, htype]

theorem allOrNothing_iff_withKey :
    AllOrNothing (withKey (some "sk") 1) oneBackend hostedBody ↔
      Atomic (withKey (some "sk") 1) oneBackend hostedBody :=
  allOrNothing_iff _ _ _ (makesNew_withKey _ (by decide))

/-- The request raises `ConfigError`, its row stays, and from then on no reload works,
whatever the registry is; at startup it is empty. -/
theorem keyless_row_stays :
    ¬ AllOrNothing (withKey none 1) oneBackend hostedBody ∧
    ∀ registry, ∃ e,
      (reload.exec (withKey none 1).answer
        { ((upsertBackend hostedBody).exec (withKey none 1).answer oneBackend).2 with
          registry }).1 =
        .error e := by
  have hrefused : ∀ table : List Backend, (∃ row ∈ table, row.enabled ∧ row.type = .hosted) →
      ¬ (withKey none 1).Loads table := by
    rintro table ⟨row, hrow, henabled, htype⟩ hloads
    obtain ⟨client, hclient⟩ := hloads.made row hrow henabled
    simp [withKey, defaultClientFactory, htype] at hclient
  have hcommitted : ∃ row ∈ (BackendRepo.upsert oneBackend.table hostedBody 7).1,
      row.enabled ∧ row.type = .hosted :=
    ⟨_, BackendRepo.upserted_mem, by decide +kernel⟩
  have hloads := hrefused _ hcommitted
  constructor
  · rw [allOrNothing_of_commit _ _ _ (makesNew_withKey none (by decide)) (u := ()) rfl]
    rintro (⟨hloads', -⟩ | ⟨-, hsame⟩)
    · exact hloads hloads'
    · revert hsame
      simp [BackendRepo.Unchanged, oneBackend, hostedBody]
  · intro registry
    obtain ⟨e, hupsert⟩ := exec_upsert_of_not_loads (withKey none 1) oneBackend hostedBody
      (u := ()) rfl hloads
    rw [hupsert]
    obtain ⟨e', hreload⟩ := (withKey none 1).exec_reload_of_not_loads
      (w := { oneBackend with table := _, registry }) hloads
    exact ⟨e', congrArg Prod.fst hreload⟩

end AdminSurroundings

end InferenceGateway.Orchestrator
