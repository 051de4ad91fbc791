import InferenceGateway.Domain
import Mathlib.Data.List.Nodup
import Mathlib.Logic.Function.Basic

/-!
# The registry of live backends

A reload builds a client for every enabled row, groups the rows by model and swaps both
maps at once. `candidates` looks both maps up again.
-/
namespace InferenceGateway.Backends

/-- `d[key] = value` for a dictionary in insertion order. -/
def setItem {κ α : Type} [DecidableEq κ] (d : List (κ × α)) (key : κ) (value : α) : List (κ × α) :=
  if key ∈ d.map Prod.fst then d.map fun item => if item.1 = key then (key, value) else item
  else d ++ [(key, value)]

section Factory
variable {Error : Type}

/-- `default_client_factory`, for the constructors of the clients and of `ConfigError` and for
Python's `repr`. Without a key, or with an empty one, there is no client for a hosted backend. -/
def defaultClientFactory (configError : String → Error) (repr : String → String)
    (ollamaClient : (endpoint defaultModel name : String) → Except Error Client)
    (hostedClient : (endpoint apiKey defaultModel name : String) → Except Error Client)
    (ollamaHost : String) (hostedApiKey : Option String) (backend : Backend) :
    Except Error Client :=
  match backend.type with
  | .ollama => ollamaClient (if backend.endpoint = "" then ollamaHost else backend.endpoint)
      backend.model backend.name
  | .hosted =>
    let apiKey := hostedApiKey.getD ""
    if apiKey = "" then
      .error (configError
        ("backend " ++ repr backend.name ++ " is hosted but no API key is configured"))
    else hostedClient backend.endpoint apiKey backend.model backend.name

end Factory

structure BackendRegistry where
  clients : List (Uuid × Client) := []
  byModel : String → List Backend := fun _ => []

namespace BackendRegistry

/-- One pass through the loop of `reload`. -/
def add (maps : BackendRegistry) (backend : Backend) (client : Client) : BackendRegistry where
  clients := setItem maps.clients backend.id client
  byModel := Function.update maps.byModel backend.model (maps.byModel backend.model ++ [backend])

section Reload
variable {Error : Type} (clientFactory : Backend → Except Error Client)

/-- The loop of `reload` over the rows of the table. -/
def build : List Backend → BackendRegistry → Except Error BackendRegistry
  | [], maps => .ok maps
  | backend :: backends, maps =>
    if backend.enabled then
      match clientFactory backend with
      | .error e => .error e
      | .ok client => build backends (maps.add backend client)
    else build backends maps

/-- The clients that the loop has made when it ends or a row makes it raise. -/
def made : List Backend → List (Backend × Client)
  | [] => []
  | backend :: backends =>
    if backend.enabled then
      match clientFactory backend with
      | .error _ => []
      | .ok client => (backend, client) :: made backends
    else made backends

/-- `backends_for_model.sort(key=lambda b: b.priority)` for every model. -/
def sortByPriority (maps : BackendRegistry) : BackendRegistry :=
  { maps with byModel := fun model =>
      (maps.byModel model).mergeSort fun a b => a.priority ≤ b.priority }

/-- What `reload` does between reading the table and closing the old clients: the new
registry and the old clients. -/
def install (registry : BackendRegistry) (backends : List Backend) :
    Except Error (BackendRegistry × List Client) :=
  match build clientFactory backends {} with
  | .error e => .error e
  | .ok maps => .ok (sortByPriority maps, registry.clients.map Prod.snd)

end Reload

/-- `candidates`, or `none` if a client is missing. -/
def candidates (registry : BackendRegistry) (model : String) : Option (List (Backend × Client)) :=
  (registry.byModel model).mapM fun b =>
    (registry.clients.lookup b.id).map fun client => (b, client)

/-- Every backend is listed under its own model. -/
def Grouped (registry : BackendRegistry) : Prop :=
  ∀ model, ∀ b ∈ registry.byModel model, b.model = model

variable {registry maps : BackendRegistry} {Error : Type}
  {clientFactory : Backend → Except Error Client}

theorem grouped_empty : Grouped {} := by simp [Grouped]

theorem Grouped.add (h : maps.Grouped) (backend : Backend) (client : Client) :
    (maps.add backend client).Grouped := by
  intro model b hb
  by_cases heq : model = backend.model
  · subst heq
    have hb' : b ∈ maps.byModel backend.model ++ [backend] := by
      simpa [BackendRegistry.add] using hb
    obtain hold | hnew := List.mem_append.mp hb'
    · exact h _ b hold
    · rw [List.mem_singleton.mp hnew]
  · exact h model b (by simpa [BackendRegistry.add, heq] using hb)

theorem Grouped.build {backends : List Backend} (h : maps.Grouped) {maps' : BackendRegistry}
    (hbuild : build clientFactory backends maps = .ok maps') : maps'.Grouped := by
  induction backends generalizing maps with
  | nil => exact Except.ok.inj hbuild ▸ h
  | cons backend backends ih =>
    unfold BackendRegistry.build at hbuild
    split at hbuild
    · split at hbuild
      · exact absurd hbuild (by simp)
      · exact ih (h.add backend _) hbuild
    · exact ih h hbuild

theorem Grouped.sortByPriority (h : maps.Grouped) : maps.sortByPriority.Grouped :=
  fun model b hb => h model b (List.mem_mergeSort.mp hb)

/-- A reload groups the rows anew, whatever the registry was before. -/
theorem Grouped.install {backends : List Backend} {registry' : BackendRegistry}
    {oldClients : List Client}
    (h : registry.install clientFactory backends = .ok (registry', oldClients)) :
    registry'.Grouped := by
  unfold BackendRegistry.install at h
  split at h
  · exact absurd h (by simp)
  · rename_i maps hbuild
    obtain ⟨rfl, -⟩ := Prod.mk.inj (Except.ok.inj h)
    exact (grouped_empty.build hbuild).sortByPriority

theorem map_eq_of_mapM {α β : Type} {f : α → Option β} {g : β → α}
    (hg : ∀ a b, f a = some b → g b = a) {l : List α} {l' : List β} (h : l.mapM f = some l') :
    l'.map g = l := by
  induction l generalizing l' with
  | nil =>
    obtain rfl : [] = l' := by simpa using h
    rfl
  | cons a l ih =>
    obtain ⟨b, hb, l'', hl'', rfl⟩ : ∃ b, f a = some b ∧ ∃ l'', l.mapM f = some l'' ∧
        b :: l'' = l' := by simpa [List.mapM_cons, Option.bind_eq_some_iff] using h
    rw [List.map_cons, hg a b hb, ih hl'']

/-- The candidates are the listed backends in their order. -/
theorem map_fst_candidates {model : String} {pairs : List (Backend × Client)}
    (h : registry.candidates model = some pairs) : pairs.map Prod.fst = registry.byModel model := by
  refine map_eq_of_mapM (fun b pair hpair => ?_) h
  obtain ⟨client, -, rfl⟩ := Option.map_eq_some_iff.mp hpair
  rfl

theorem exists_of_mem_mapM {α β : Type} {f : α → Option β} {l : List α} {l' : List β}
    (h : l.mapM f = some l') : ∀ b ∈ l', ∃ a ∈ l, f a = some b := by
  induction l generalizing l' with
  | nil =>
    obtain rfl : [] = l' := by simpa using h
    exact fun b hb => nomatch hb
  | cons a l ih =>
    obtain ⟨b, hb, l'', hl'', rfl⟩ : ∃ b, f a = some b ∧ ∃ l'', l.mapM f = some l'' ∧
        b :: l'' = l' := by simpa [List.mapM_cons, Option.bind_eq_some_iff] using h
    refine List.forall_mem_cons.mpr ⟨⟨a, List.mem_cons_self, hb⟩, fun c hc => ?_⟩
    obtain ⟨x, hx, hfx⟩ := ih hl'' c hc
    exact ⟨x, List.mem_cons_of_mem _ hx, hfx⟩

/-- Only clients of the registry are offered. -/
theorem mem_clients_of_candidates {model : String} {pairs : List (Backend × Client)}
    (h : registry.candidates model = some pairs) {pair : Backend × Client} (hpair : pair ∈ pairs) :
    pair.2 ∈ registry.clients.map Prod.snd := by
  obtain ⟨b, -, hb⟩ := exists_of_mem_mapM h pair hpair
  obtain ⟨client, hclient, rfl⟩ := Option.map_eq_some_iff.mp hb
  obtain ⟨before, after, hclients, -⟩ := List.lookup_eq_some_iff.mp hclient
  simp [hclients]

/-- The candidates for a model serve that model. -/
theorem Grouped.candidates (h : registry.Grouped) {model : String}
    {pairs : List (Backend × Client)} (hpairs : registry.candidates model = some pairs) :
    ∀ pair ∈ pairs, pair.1.model = model := fun pair hpair =>
  h model pair.1 (map_fst_candidates hpairs ▸ List.mem_map_of_mem hpair)

/-! ## What a reload installs -/

theorem mem_keys_setItem {κ α : Type} [DecidableEq κ] {d : List (κ × α)} {key k : κ} {value : α} :
    k ∈ (setItem d key value).map Prod.fst ↔ k = key ∨ k ∈ d.map Prod.fst := by
  unfold setItem
  split
  · rename_i hmem
    have hkeys : (d.map fun item => if item.1 = key then (key, value) else item).map Prod.fst =
        d.map Prod.fst := by
      rw [List.map_map]
      refine List.map_congr_left fun item _ => ?_
      dsimp only [Function.comp]
      split
      · rename_i heq
        exact heq.symm
      · rfl
    rw [hkeys]
    exact ⟨.inr, fun h => h.elim (fun heq => heq ▸ hmem) id⟩
  · rw [List.map_append, List.mem_append, or_comm]
    simp

theorem mem_setItem {κ α : Type} [DecidableEq κ] {d : List (κ × α)} {key : κ} {value : α}
    {item : κ × α} (h : item ∈ setItem d key value) : item = (key, value) ∨ item ∈ d := by
  unfold setItem at h
  split at h
  · obtain ⟨old, hold, rfl⟩ := List.mem_map.mp h
    split
    · exact .inl rfl
    · exact .inr hold
  · obtain hold | hnew := List.mem_append.mp h
    · exact .inr hold
    · exact .inl (List.mem_singleton.mp hnew)

/-- The rows that a reload lists under a model. -/
def enabledFor (model : String) (backends : List Backend) : List Backend :=
  backends.filter fun b => b.enabled ∧ b.model = model

theorem byModel_add (backend : Backend) (client : Client) (model : String) :
    (maps.add backend client).byModel model =
      if model = backend.model then maps.byModel backend.model ++ [backend]
      else maps.byModel model :=
  Function.update_apply ..

theorem byModel_build {backends : List Backend} {maps' : BackendRegistry}
    (h : build clientFactory backends maps = .ok maps') (model : String) :
    maps'.byModel model = maps.byModel model ++ enabledFor model backends := by
  induction backends generalizing maps with
  | nil =>
    obtain rfl := Except.ok.inj h
    exact (List.append_nil _).symm
  | cons backend backends ih =>
    unfold BackendRegistry.build at h
    split at h
    · rename_i henabled
      split at h
      · exact nomatch h
      · rw [ih h, byModel_add, enabledFor, enabledFor, List.filter_cons]
        by_cases hmodel : model = backend.model
        · subst hmodel
          simp [henabled]
        · simp [Ne.symm hmodel, hmodel]
    · rename_i hdisabled
      rw [ih h, enabledFor, enabledFor, List.filter_cons_of_neg (by simp [hdisabled])]

/-- Every listed backend has a client. -/
def Served (registry : BackendRegistry) : Prop :=
  ∀ model, ∀ b ∈ registry.byModel model, b.id ∈ registry.clients.map Prod.fst

theorem Served.build {backends : List Backend} (h : maps.Served) {maps' : BackendRegistry}
    (hbuild : build clientFactory backends maps = .ok maps') : maps'.Served := by
  induction backends generalizing maps with
  | nil => exact Except.ok.inj hbuild ▸ h
  | cons backend backends ih =>
    unfold BackendRegistry.build at hbuild
    split at hbuild
    · split at hbuild
      · exact nomatch hbuild
      · refine ih (fun model b hb => ?_) hbuild
        refine mem_keys_setItem.mpr ?_
        rw [byModel_add] at hb
        split at hb
        · obtain hold | hnew := List.mem_append.mp hb
          · exact .inr (h _ b hold)
          · exact .inl (congrArg Backend.id (List.mem_singleton.mp hnew))
        · exact .inr (h _ b hb)
    · exact ih h hbuild

theorem exists_mapM {α β : Type} {f : α → Option β} {l : List α} (h : ∀ a ∈ l, ∃ b, f a = some b) :
    ∃ l', l.mapM f = some l' := by
  induction l with
  | nil => exact ⟨[], rfl⟩
  | cons a l ih =>
    obtain ⟨b, hb⟩ := h a List.mem_cons_self
    obtain ⟨l', hl'⟩ := ih fun x hx => h x (List.mem_cons_of_mem _ hx)
    exact ⟨b :: l', by simp [List.mapM_cons, hb, hl']⟩

theorem Served.candidates (h : registry.Served) (model : String) :
    ∃ pairs, registry.candidates model = some pairs := by
  refine exists_mapM fun b hb => ?_
  obtain ⟨item, hitem, hid⟩ := List.mem_map.mp (h model b hb)
  have hsome : (registry.clients.lookup b.id).isSome :=
    List.lookup_isSome_iff.mpr ⟨item, hitem, by simp [hid]⟩
  obtain ⟨client, hclient⟩ := Option.isSome_iff_exists.mp hsome
  exact ⟨(b, client), by rw [hclient, Option.map_some]⟩

/-- The candidates for every model are exactly the enabled rows of the table for it, in
some order. -/
def Reflects (registry : BackendRegistry) (table : List Backend) : Prop :=
  ∀ model, ∃ pairs, registry.candidates model = some pairs ∧
    (pairs.map Prod.fst).Perm (enabledFor model table)

theorem Reflects.of_perm {table table' : List Backend} (h : registry.Reflects table)
    (hperm : table.Perm table') : registry.Reflects table' := fun model =>
  have ⟨pairs, hpairs, hrows⟩ := h model
  ⟨pairs, hpairs, hrows.trans (hperm.filter _)⟩

/-- A reload that is not interrupted reflects the rows it has read. -/
theorem reflects_install {backends : List Backend} {registry' : BackendRegistry}
    {oldClients : List Client}
    (h : registry.install clientFactory backends = .ok (registry', oldClients)) :
    registry'.Reflects backends := by
  unfold BackendRegistry.install at h
  split at h
  · exact nomatch h
  · rename_i maps hbuild
    obtain ⟨rfl, -⟩ := Prod.mk.inj (Except.ok.inj h)
    intro model
    have hempty : Served {} := fun model b hb => nomatch hb
    have hserved : maps.sortByPriority.Served := fun model b hb =>
      hempty.build hbuild model b (List.mem_mergeSort.mp hb)
    obtain ⟨pairs, hpairs⟩ := hserved.candidates model
    have hlisted : maps.byModel model = enabledFor model backends := byModel_build hbuild model
    refine ⟨pairs, hpairs, ?_⟩
    rw [map_fst_candidates hpairs, ← hlisted]
    exact List.mergeSort_perm _ _

/-- The factory decides whether a reload gets to swap the maps. -/
theorem exists_build_iff {backends : List Backend} {maps : BackendRegistry} :
    (∃ maps', build clientFactory backends maps = .ok maps') ↔
      ∀ b ∈ backends, b.enabled → ∃ client, clientFactory b = .ok client := by
  induction backends generalizing maps with
  | nil => exact iff_of_true ⟨maps, rfl⟩ (by simp)
  | cons backend backends ih =>
    unfold BackendRegistry.build
    rw [List.forall_mem_cons]
    split
    · rename_i henabled
      split
      · rename_i e herror
        simp [henabled, herror]
      · rename_i client hclient
        simp [ih, hclient]
    · rename_i hdisabled
      simp [ih, hdisabled]

/-- The clients of a new registry come from the factory. -/
theorem mem_clients_build {backends : List Backend} {maps' : BackendRegistry}
    (h : build clientFactory backends maps = .ok maps') {item : Uuid × Client}
    (hitem : item ∈ maps'.clients) :
    item ∈ maps.clients ∨ ∃ b ∈ backends, clientFactory b = .ok item.2 := by
  induction backends generalizing maps with
  | nil => exact .inl (Except.ok.inj h ▸ hitem)
  | cons backend backends ih =>
    unfold BackendRegistry.build at h
    split at h
    · split at h
      · exact nomatch h
      · rename_i client hclient
        obtain hold | ⟨b, hb, hmade⟩ := ih h
        · obtain rfl | hold := mem_setItem hold
          · exact .inr ⟨backend, List.mem_cons_self, hclient⟩
          · exact .inl hold
        · exact .inr ⟨b, List.mem_cons_of_mem _ hb, hmade⟩
    · obtain hold | ⟨b, hb, hmade⟩ := ih h
      · exact .inl hold
      · exact .inr ⟨b, List.mem_cons_of_mem _ hb, hmade⟩

/-- A reload makes all clients of the new registry and returns those of the old one. -/
theorem clients_install {backends : List Backend} {registry' : BackendRegistry}
    {oldClients : List Client}
    (h : registry.install clientFactory backends = .ok (registry', oldClients)) :
    (∀ item ∈ registry'.clients, ∃ b ∈ backends, clientFactory b = .ok item.2) ∧
      oldClients = registry.clients.map Prod.snd := by
  unfold BackendRegistry.install at h
  split at h
  · exact nomatch h
  · rename_i maps hbuild
    obtain ⟨rfl, rfl⟩ := Prod.mk.inj (Except.ok.inj h)
    refine ⟨fun item hitem => ?_, rfl⟩
    exact (mem_clients_build hbuild hitem).resolve_left (by simp)

/-! ## The clients that a reload makes -/

theorem mem_made {backends : List Backend} {pair : Backend × Client}
    (h : pair ∈ made clientFactory backends) :
    pair.1 ∈ backends ∧ pair.1.enabled ∧ clientFactory pair.1 = .ok pair.2 := by
  induction backends with
  | nil => exact nomatch h
  | cons backend backends ih =>
    have hlater : pair ∈ made clientFactory backends → pair.1 ∈ backend :: backends ∧
        pair.1.enabled ∧ clientFactory pair.1 = .ok pair.2 := fun hpair =>
      have ⟨hmem, hmade⟩ := ih hpair
      ⟨List.mem_cons_of_mem _ hmem, hmade⟩
    unfold made at h
    split at h
    · rename_i henabled
      split at h
      · exact nomatch h
      · rename_i client hclient
        obtain rfl | hpair := List.mem_cons.mp h
        · exact ⟨List.mem_cons_self, henabled, hclient⟩
        · exact hlater hpair
    · exact hlater h

theorem map_fst_made_sublist (clientFactory : Backend → Except Error Client)
    (backends : List Backend) : ((made clientFactory backends).map Prod.fst).Sublist backends := by
  induction backends with
  | nil => exact List.Sublist.slnil
  | cons backend backends ih =>
    unfold made
    split
    · split
      · exact List.nil_sublist _
      · exact ih.cons_cons backend
    · exact ih.cons backend

/-- Nothing is made exactly if the first enabled row makes the loop raise. -/
theorem made_eq_nil_iff {backends : List Backend} : made clientFactory backends = [] ↔
    ∀ first, backends.find? (·.enabled) = some first → ∃ e, clientFactory first = .error e := by
  induction backends with
  | nil => simp [made]
  | cons backend backends ih =>
    unfold made
    split
    · rename_i henabled
      rw [List.find?_cons_of_pos henabled]
      cases hclient : clientFactory backend <;> simp [hclient]
    · rename_i hdisabled
      rwa [List.find?_cons_of_neg hdisabled]

theorem setItem_of_not_mem {κ α : Type} [DecidableEq κ] {d : List (κ × α)} {key : κ}
    (h : key ∉ d.map Prod.fst) (value : α) : setItem d key value = d ++ [(key, value)] := if_neg h

/-- With unique identifiers no client replaces another. -/
theorem clients_build {backends : List Backend} {maps' : BackendRegistry}
    (h : build clientFactory backends maps = .ok maps')
    (hunique : (maps.clients.map Prod.fst ++ backends.map Backend.id).Nodup) :
    maps'.clients = maps.clients ++
      (made clientFactory backends).map fun pair => (pair.1.id, pair.2) := by
  induction backends generalizing maps with
  | nil =>
    obtain rfl := Except.ok.inj h
    exact (List.append_nil _).symm
  | cons backend backends ih =>
    unfold BackendRegistry.build at h
    unfold made
    rw [List.map_cons] at hunique
    split at h
    · rename_i henabled
      rw [if_pos henabled]
      split at h
      · exact nomatch h
      · rename_i client hclient
        have hnew : backend.id ∉ maps.clients.map Prod.fst := fun hmem =>
          (List.nodup_append.mp hunique).2.2 _ hmem _ List.mem_cons_self rfl
        have hclients :
            (maps.add backend client).clients = maps.clients ++ [(backend.id, client)] :=
          setItem_of_not_mem hnew client
        rw [ih h ?_, hclients, List.append_assoc]
        · rfl
        · rw [hclients, List.map_append, List.append_assoc]
          exact hunique
    · rename_i hdisabled
      rw [if_neg hdisabled]
      exact ih h (hunique.sublist ((List.sublist_cons_self _ _).append_left _))

/-- The candidates for every model are the enabled rows for it in the order of their
priorities, each once and with the client that the factory has made for it. -/
def Installed (registry : BackendRegistry) (clientFactory : Backend → Except Error Client)
    (backends : List Backend) : Prop :=
  ∀ model, ∃ pairs, registry.candidates model = some pairs ∧
    (pairs.map Prod.fst).Perm (enabledFor model backends) ∧ (pairs.map Prod.fst).Nodup ∧
    (pairs.Pairwise fun first later => first.1.priority ≤ later.1.priority) ∧
    ∀ pair ∈ pairs, clientFactory pair.1 = .ok pair.2

/-- A reload of rows with unique identifiers makes all clients of the new registry, in the
order of the rows. -/
theorem clients_of_install {backends : List Backend} {registry' : BackendRegistry}
    {oldClients : List Client}
    (h : registry.install clientFactory backends = .ok (registry', oldClients))
    (hunique : (backends.map Backend.id).Nodup) : registry'.clients =
      (made clientFactory backends).map fun pair => (pair.1.id, pair.2) := by
  unfold BackendRegistry.install at h
  split at h
  · exact nomatch h
  · rename_i maps hbuild
    obtain ⟨rfl, -⟩ := Prod.mk.inj (Except.ok.inj h)
    exact (clients_build hbuild hunique).trans (List.nil_append _)

theorem byModel_of_install {backends : List Backend} {registry' : BackendRegistry}
    {oldClients : List Client}
    (h : registry.install clientFactory backends = .ok (registry', oldClients)) (model : String) :
    registry'.byModel model =
      (enabledFor model backends).mergeSort fun a b => a.priority ≤ b.priority := by
  unfold BackendRegistry.install at h
  split at h
  · exact nomatch h
  · rename_i maps hbuild
    obtain ⟨rfl, -⟩ := Prod.mk.inj (Except.ok.inj h)
    have hlisted : maps.byModel model = enabledFor model backends := byModel_build hbuild model
    rw [← hlisted]
    rfl

theorem installed_install {backends : List Backend} {registry' : BackendRegistry}
    {oldClients : List Client}
    (h : registry.install clientFactory backends = .ok (registry', oldClients))
    (hunique : (backends.map Backend.id).Nodup) : registry'.Installed clientFactory backends := by
  intro model
  obtain ⟨pairs, hpairs, hperm⟩ := reflects_install h model
  refine ⟨pairs, hpairs, hperm, ?_, ?_, fun pair hpair => ?_⟩
  · exact hperm.nodup_iff.mpr ((hunique.of_map _).filter _)
  · have hsorted : (pairs.map Prod.fst).Pairwise fun a b => a.priority ≤ b.priority := by
      rw [map_fst_candidates hpairs, byModel_of_install h]
      refine (List.pairwise_mergeSort (fun a b c hab hbc => ?_) (fun a b => ?_) _).imp
        fun hle => of_decide_eq_true hle
      · exact decide_eq_true ((of_decide_eq_true hab).trans (of_decide_eq_true hbc))
      · rw [Bool.or_eq_true, decide_eq_true_iff, decide_eq_true_iff]
        exact le_total a.priority b.priority
    rwa [List.pairwise_map] at hsorted
  · obtain ⟨b, hb, hfound⟩ := exists_of_mem_mapM hpairs pair hpair
    obtain ⟨client, hclient, rfl⟩ := Option.map_eq_some_iff.mp hfound
    obtain ⟨before, after, hclients, -⟩ := List.lookup_eq_some_iff.mp hclient
    have hmem : (b.id, client) ∈ registry'.clients := by simp [hclients]
    rw [clients_of_install h hunique] at hmem
    obtain ⟨made, hmade, heq⟩ := List.mem_map.mp hmem
    obtain ⟨hid, rfl⟩ := Prod.mk.inj heq
    obtain ⟨hrow, -, hfactory⟩ := mem_made hmade
    have hlisted : b ∈ enabledFor model backends :=
      hperm.mem_iff.mp (List.mem_map_of_mem hpair)
    -- Rows with the same identifier are the same row.
    obtain rfl := List.inj_on_of_nodup_map hunique hrow (List.mem_filter.mp hlisted).1 hid
    exact hfactory

end BackendRegistry

end InferenceGateway.Backends
