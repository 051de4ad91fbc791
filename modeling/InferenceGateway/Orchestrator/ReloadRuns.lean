import InferenceGateway.Library.Execution
import InferenceGateway.Library.Schedule
import InferenceGateway.Library.Service
import InferenceGateway.Orchestrator.World
import Mathlib.Data.Nat.Pairing

/-!
# Reload after reload

A sequence of reloads over any tables, in which the read of the table, the client factory
and the closing of old clients may raise. What is counted beside the registry: every client
that the factory has ever made, and every call of `aclose`.
-/
namespace InferenceGateway.Orchestrator
open Library Library.Action Backends

/-- What one reload meets. Rows of a table have unique identifiers. -/
structure ReloadCall where
  read : Except Raised (List Backend)
  exit : Except Raised Unit
  construct : Backend → Except Raised Unit
  aclose : Client → Except Raised Unit
  unique : ∀ rows, read = .ok rows → (rows.map Backend.id).Nodup

/-- The registry, and what has been done to clients. -/
structure ReloadState where
  registry : BackendRegistry := {}
  reloads : Nat := 0
  built : List Client := []
  closed : List Client := []

namespace ReloadState

def current (s : ReloadState) : List Client := s.registry.clients.map Prod.snd

end ReloadState

/-- The object that the factory makes for a row in a reload. No other call makes it. -/
def clientOf (reload : Nat) (backend : Backend) : Client := ⟨Nat.pair reload backend.id⟩

namespace ReloadCall

variable (r : ReloadCall)

/-- The factory as the given reload meets it. -/
def clientFactory (reload : Nat) (backend : Backend) : Except Raised Client :=
  (r.construct backend).map fun _ => clientOf reload backend

def answer : Program.Handler Op Reply ReloadState := fun s op =>
  match op with
  | .listBackends => (r.read, s)
  | .closeSession => (r.exit, s)
  | .install backends =>
    let made := BackendRegistry.made (r.clientFactory s.reloads) backends
    let s := { s with built := s.built ++ made.map Prod.snd }
    match s.registry.install (r.clientFactory s.reloads) backends with
    | .ok (registry, oldClients) => (.ok oldClients, { s with registry })
    | .error e => (.error e, s)
  | .aclose client => (r.aclose client, { s with closed := s.closed ++ [client] })
  | _ => (.error (.failure "not an operation of a reload"), s)

/-- The rows that the reload has got when it begins to make clients. -/
def snapshot : Option (List Backend) :=
  match r.read, r.exit with
  | .ok rows, .ok _ => some rows
  | _, _ => none

/-- The reload makes all the clients for these rows. -/
def Builds (rows : List Backend) : Prop :=
  r.snapshot = some rows ∧ ∀ row ∈ rows, row.enabled → r.construct row = .ok ()

/-- The clients on which the last loop of the reload calls `aclose`. -/
def reached : List Client → List Client
  | [] => []
  | client :: clients =>
    match r.aclose client with
    | .ok _ => client :: reached clients
    | .error _ => [client]

end ReloadCall

/-- The service that reloads, one call after the other. -/
def reloads : Service ReloadState ReloadCall (Except Raised Unit) where
  initial := {}
  serve s r :=
    let (result, s') := reload.exec r.answer s
    (result, { s' with reloads := s'.reloads + 1 })

namespace ReloadCall

variable {r : ReloadCall} {s : ReloadState} {rows : List Backend} {backend : Backend}

theorem clientFactory_eq_ok_iff {n : Nat} {client : Client} :
    r.clientFactory n backend = .ok client ↔
      r.construct backend = .ok () ∧ client = clientOf n backend := by
  unfold clientFactory
  cases r.construct backend <;> simp [Except.map, eq_comm]

theorem unique_of_snapshot (h : r.snapshot = some rows) : (rows.map Backend.id).Nodup := by
  unfold snapshot at h
  split at h
  · rename_i rows' _ hread _
    exact r.unique rows (Option.some.inj h ▸ hread)
  · exact nomatch h

theorem exec_acloseAll (clients : List Client) (s : ReloadState) :
    ∃ result, (acloseAll clients).exec r.answer s =
      (result, { s with closed := s.closed ++ r.reached clients }) := by
  induction clients generalizing s with
  | nil => exact ⟨.ok (), by simp [acloseAll, reached]⟩
  | cons client clients ih =>
    unfold acloseAll reached
    cases hclose : r.aclose client with
    | ok u =>
      obtain ⟨result, hlater⟩ := ih { s with closed := s.closed ++ [client] }
      refine ⟨result, ?_⟩
      rw [exec_bind_ok (a := u) (t := { s with closed := s.closed ++ [client] })
        (by simp [answer, hclose]), hlater]
      simp
    | error e => exact ⟨.error e, exec_bind_error (by simp [answer, hclose])⟩

theorem serve_eq {result : Except Raised Unit} {s' : ReloadState}
    (h : reload.exec r.answer s = (result, s')) :
    reloads.serve s r = (result, { s' with reloads := s'.reloads + 1 }) := by
  simp only [reloads, h]

theorem builds_iff_build (n : Nat) (h : r.snapshot = some rows) :
    r.Builds rows ↔ ∃ maps, BackendRegistry.build (r.clientFactory n) rows {} = .ok maps := by
  rw [BackendRegistry.exists_build_iff, Builds, and_iff_right h]
  refine forall₃_congr fun row _ _ => ?_
  simp [clientFactory_eq_ok_iff]

/-- The swap, with the clients that the factory has made by then. -/
theorem answer_install (s : ReloadState) (rows : List Backend) :
    r.answer s (.install rows) =
      (match BackendRegistry.build (r.clientFactory s.reloads) rows {} with
        | .error e => (.error e, { s with
            built := s.built ++
              (BackendRegistry.made (r.clientFactory s.reloads) rows).map Prod.snd })
        | .ok maps => (.ok s.current, { s with
            registry := maps.sortByPriority
            built := s.built ++
              (BackendRegistry.made (r.clientFactory s.reloads) rows).map Prod.snd })) := by
  simp only [answer, BackendRegistry.install, ReloadState.current]
  cases BackendRegistry.build (r.clientFactory s.reloads) rows {} <;> rfl

/-- A reload raises before the factory, in the factory, or after the swap. -/
theorem serve_cases (s : ReloadState) (r : ReloadCall) :
    (r.snapshot = none ∧ ∃ e, reloads.serve s r = (.error e, { s with reloads := s.reloads + 1 })) ∨
    (∃ rows, r.snapshot = some rows ∧ ¬ r.Builds rows ∧ ∃ e,
      reloads.serve s r = (.error e, { s with
        reloads := s.reloads + 1
        built := s.built ++
          (BackendRegistry.made (r.clientFactory s.reloads) rows).map Prod.snd })) ∨
    ∃ rows registry, r.Builds rows ∧
      s.registry.install (r.clientFactory s.reloads) rows = .ok (registry, s.current) ∧
      ∃ result, reloads.serve s r = (result,
        { registry
          reloads := s.reloads + 1
          built := s.built ++ (BackendRegistry.made (r.clientFactory s.reloads) rows).map Prod.snd
          closed := s.closed ++ r.reached s.current }) := by
  have hserve := @serve_eq r s
  unfold reload at hserve
  cases hread : r.read with
  | error e =>
    exact .inl ⟨by simp [snapshot, hread], e, hserve (exec_bind_error (by simp [answer, hread]))⟩
  | ok rows =>
    rw [exec_bind_ok (a := rows) (t := s) (by simp [answer, hread])] at hserve
    cases hexit : r.exit with
    | error e =>
      exact .inl ⟨by simp [snapshot, hread, hexit], e,
        hserve (exec_bind_error (by simp [answer, hexit]))⟩
    | ok u =>
      have hsnapshot : r.snapshot = some rows := by simp [snapshot, hread, hexit]
      have hbuilds := builds_iff_build s.reloads hsnapshot
      have hanswer := answer_install (r := r) s rows
      rw [exec_bind_ok (a := u) (t := s) (by simp [answer, hexit])] at hserve
      refine .inr ?_
      cases hbuild : BackendRegistry.build (r.clientFactory s.reloads) rows {} with
      | error e =>
        rw [hbuild] at hanswer
        refine .inl ⟨rows, hsnapshot, fun h => ?_, e, hserve (exec_bind_error hanswer)⟩
        obtain ⟨maps, hmaps⟩ := hbuilds.mp h
        exact nomatch hbuild.symm.trans hmaps
      | ok maps =>
        rw [hbuild] at hanswer
        have hinstall : s.registry.install (r.clientFactory s.reloads) rows =
            .ok (maps.sortByPriority, s.current) := by
          rw [BackendRegistry.install, hbuild, ReloadState.current]
        refine .inr ⟨rows, maps.sortByPriority, hbuilds.mpr ⟨maps, hbuild⟩, hinstall, ?_⟩
        obtain ⟨result, hclose⟩ := r.exec_acloseAll s.current { s with
          registry := maps.sortByPriority
          built := s.built ++
            (BackendRegistry.made (r.clientFactory s.reloads) rows).map Prod.snd }
        rw [exec_bind_ok (a := s.current) (by exact hanswer)] at hserve
        exact ⟨result, hserve hclose⟩

/-- A reload that does not make all its clients raises, and leaves the registry alone. -/
theorem registry_of_not_builds (h : ∀ rows, ¬ r.Builds rows) :
    (∃ e, (reloads.serve s r).1 = .error e) ∧ (reloads.serve s r).2.registry = s.registry := by
  obtain ⟨-, e, heq⟩ | ⟨rows, -, -, e, heq⟩ | ⟨rows, registry, hbuilds, -⟩ := serve_cases s r
  · rw [heq]
    exact ⟨⟨e, rfl⟩, rfl⟩
  · rw [heq]
    exact ⟨⟨e, rfl⟩, rfl⟩
  · exact absurd hbuilds (h rows)

/-- A reload that makes all its clients installs them, whatever it raises afterwards. -/
theorem installed_of_builds (h : r.Builds rows) :
    (reloads.serve s r).2.registry.Installed (r.clientFactory s.reloads) rows := by
  obtain ⟨hnone, -⟩ | ⟨rows', hsome, hno, -⟩ | ⟨rows', registry, hbuilds, hinstall, result, heq⟩ :=
    serve_cases s r
  · exact nomatch hnone.symm.trans h.1
  · obtain rfl := Option.some.inj (hsome.symm.trans h.1)
    exact absurd h hno
  · obtain rfl := Option.some.inj (hbuilds.1.symm.trans h.1)
    rw [heq]
    exact BackendRegistry.installed_install hinstall (r.unique_of_snapshot h.1)

theorem reloads_serve (s : ReloadState) (r : ReloadCall) :
    (reloads.serve s r).2.reloads = s.reloads + 1 := by
  obtain ⟨-, e, heq⟩ | ⟨rows, -, -, e, heq⟩ | ⟨rows, registry, -, -, result, heq⟩ :=
    serve_cases s r <;> rw [heq]

end ReloadCall

/-! ## The candidates after every reload -/

theorem reloads_state (calls : List ReloadCall) : (reloads.state calls).reloads = calls.length := by
  induction calls using List.reverseRecOn with
  | nil => rfl
  | append_singleton calls r ih =>
    rw [Service.state_concat, ReloadCall.reloads_serve, ih, List.length_append]
    rfl

/-- After reloads that do not make all their clients the registry is what it was. -/
theorem registry_append {calls later : List ReloadCall}
    (h : ∀ r ∈ later, ∀ rows, ¬ r.Builds rows) :
    (reloads.state (calls ++ later)).registry = (reloads.state calls).registry := by
  induction later using List.reverseRecOn with
  | nil => rw [List.append_nil]
  | append_singleton later r ih =>
    obtain ⟨hlater, hlast⟩ := List.forall_mem_append.mp h
    rw [← List.append_assoc, Service.state_concat,
      (ReloadCall.registry_of_not_builds (List.forall_mem_singleton.mp hlast)).2, ih hlater]

/-- After any reloads no candidate lacks its client. The candidates are the rows of the last
reload that has made all its clients, with the clients it has made for them, and a reload that
raises before its swap changes none of them. -/
theorem candidates_of_last_build (calls : List ReloadCall) :
    (∀ model, ∃ pairs, (reloads.state calls).registry.candidates model = some pairs) ∧
    (∀ before r later rows, calls = before ++ r :: later → r.Builds rows →
      (∀ r' ∈ later, ∀ rows', ¬ r'.Builds rows') →
      (reloads.state calls).registry.Installed (r.clientFactory before.length) rows) ∧
    ((∀ r ∈ calls, ∀ rows, ¬ r.Builds rows) →
      ∀ model, (reloads.state calls).registry.candidates model = some []) ∧
    reloads.Along (fun _ s r => (∀ rows, ¬ r.Builds rows) →
      (∃ e, (reloads.serve s r).1 = .error e) ∧
      ∀ model, (reloads.serve s r).2.registry.candidates model = s.registry.candidates model)
      calls := by
  have hlast : ∀ before r later rows, calls = before ++ r :: later → r.Builds rows →
      (∀ r' ∈ later, ∀ rows', ¬ r'.Builds rows') →
      (reloads.state calls).registry.Installed (r.clientFactory before.length) rows := by
    rintro before r later rows rfl hbuilds hlater
    rw [List.append_cons, registry_append hlater, Service.state_concat, ← reloads_state before]
    exact ReloadCall.installed_of_builds hbuilds
  have hnone : (∀ r ∈ calls, ∀ rows, ¬ r.Builds rows) →
      ∀ model, (reloads.state calls).registry.candidates model = some [] := by
    intro h model
    rw [← List.nil_append calls, registry_append h]
    rfl
  refine ⟨fun model => ?_, hlast, hnone, fun before r _ hno => ?_⟩
  · by_cases hbuilt : ∃ r ∈ calls, ∃ rows, r.Builds rows
    · obtain ⟨before, r, later, hcalls, ⟨rows, hbuilds⟩, hlater⟩ :=
        Pool.exists_last (fun r : ReloadCall => ∃ rows, r.Builds rows) hbuilt
      obtain ⟨pairs, hpairs, -⟩ := hlast before r later rows hcalls hbuilds
        (fun r' hr' rows' h => hlater r' hr' ⟨rows', h⟩) model
      exact ⟨pairs, hpairs⟩
    · exact ⟨[], hnone (fun r hr rows h => hbuilt ⟨r, hr, rows, h⟩) model⟩
  · obtain ⟨hraises, hregistry⟩ := ReloadCall.registry_of_not_builds hno
    exact ⟨hraises, fun model => by rw [hregistry]⟩

/-! ## The clients after every reload -/

/-- Every client that was ever made is a current one or has been closed, once. -/
def NoLeak (s : ReloadState) : Prop :=
  ∀ client ∈ s.built, client ∈ s.current ∨ s.closed.count client = 1

instance (s : ReloadState) : Decidable (NoLeak s) :=
  inferInstanceAs (Decidable (∀ client ∈ s.built, _))

/-- The factory raises for the first enabled row or for none, and closing raises for the last
old client or for none. -/
structure Tidy (s : ReloadState) (r : ReloadCall) : Prop where
  construct : ∀ rows first, r.snapshot = some rows → rows.find? (·.enabled) = some first →
    r.construct first = .ok () → r.Builds rows
  aclose : ∀ rows, r.Builds rows → ∀ client ∈ s.current.dropLast, r.aclose client = .ok ()

/-- Clients are new objects, and the current ones are open. -/
structure SoundReloads (s : ReloadState) : Prop where
  built : ∀ client ∈ s.built, (Nat.unpair client.serial).1 < s.reloads
  current : ∀ client ∈ s.current, client ∈ s.built ∧ client ∉ s.closed
  nodup : s.current.Nodup
  closed : ∀ client ∈ s.closed, client ∈ s.built

namespace ReloadCall

variable {r : ReloadCall} {s : ReloadState} {rows : List Backend} {clients : List Client}

theorem reached_prefix (clients : List Client) : r.reached clients <+: clients := by
  induction clients with
  | nil => exact List.prefix_rfl
  | cons client clients ih =>
    unfold reached
    split
    · exact (List.prefix_cons_inj client).mpr ih
    · exact ⟨clients, rfl⟩

/-- The loop reaches all clients if only the last one raises. -/
theorem reached_eq_iff :
    r.reached clients = clients ↔ ∀ client ∈ clients.dropLast, r.aclose client = .ok () := by
  induction clients with
  | nil => simp [reached]
  | cons client clients ih =>
    unfold reached
    cases clients with
    | nil => cases r.aclose client <;> simp [reached]
    | cons client' clients =>
      rw [List.dropLast_cons_cons, List.forall_mem_cons, ← ih]
      cases r.aclose client <;> simp

/-- What a reload makes is new. -/
theorem serial_of_made {n : Nat} {client : Client}
    (h : client ∈ (BackendRegistry.made (r.clientFactory n) rows).map Prod.snd) :
    (Nat.unpair client.serial).1 = n := by
  obtain ⟨pair, hpair, rfl⟩ := List.mem_map.mp h
  obtain ⟨-, -, hmade⟩ := BackendRegistry.mem_made hpair
  rw [(clientFactory_eq_ok_iff.mp hmade).2, clientOf, Nat.unpair_pair]

theorem nodup_made {n : Nat} (hunique : (rows.map Backend.id).Nodup) :
    ((BackendRegistry.made (r.clientFactory n) rows).map Prod.snd).Nodup := by
  have hids :
      ((BackendRegistry.made (r.clientFactory n) rows).map fun pair => pair.1.id).Nodup := by
    have hsublist := BackendRegistry.map_fst_made_sublist (r.clientFactory n) rows
    have hnodup := hunique.sublist (hsublist.map Backend.id)
    rwa [List.map_map] at hnodup
  have hserials : (BackendRegistry.made (r.clientFactory n) rows).map (fun pair => pair.1.id) =
      ((BackendRegistry.made (r.clientFactory n) rows).map Prod.snd).map
        fun client => (Nat.unpair client.serial).2 := by
    rw [List.map_map]
    refine List.map_congr_left fun pair hpair => ?_
    obtain ⟨-, -, hmade⟩ := BackendRegistry.mem_made hpair
    rw [Function.comp_apply, (clientFactory_eq_ok_iff.mp hmade).2, clientOf, Nat.unpair_pair]
  rw [hserials] at hids
  exact hids.of_map _

theorem current_of_install {registry : BackendRegistry} {oldClients : List Client} {n : Nat}
    (h : s.registry.install (r.clientFactory n) rows = .ok (registry, oldClients))
    (hunique : (rows.map Backend.id).Nodup) : registry.clients.map Prod.snd =
      (BackendRegistry.made (r.clientFactory n) rows).map Prod.snd := by
  rw [BackendRegistry.clients_of_install h hunique, List.map_map]
  rfl

end ReloadCall

open ReloadCall

theorem SoundReloads.step {s : ReloadState} (h : SoundReloads s) (r : ReloadCall) :
    SoundReloads (reloads.serve s r).2 := by
  have hlater : ∀ client ∈ s.built, (Nat.unpair client.serial).1 < s.reloads + 1 :=
    fun client hclient => (h.built client hclient).trans (Nat.lt_succ_self _)
  have hbuilt : ∀ rows, ∀ client ∈ s.built ++
      (BackendRegistry.made (r.clientFactory s.reloads) rows).map Prod.snd,
      (Nat.unpair client.serial).1 < s.reloads + 1 := fun rows => by
    refine List.forall_mem_append.mpr ⟨hlater, fun client hclient => ?_⟩
    rw [serial_of_made hclient]
    exact Nat.lt_succ_self _
  obtain ⟨-, e, heq⟩ | ⟨rows, -, -, e, heq⟩ | ⟨rows, registry, hbuilds, hinstall, result, heq⟩ :=
    serve_cases s r
  · rw [heq]
    exact ⟨hlater, h.current, h.nodup, h.closed⟩
  · rw [heq]
    refine ⟨hbuilt rows, fun client hclient => ?_, h.nodup, fun client hclient => ?_⟩
    · exact ⟨List.mem_append_left _ (h.current client hclient).1, (h.current client hclient).2⟩
    · exact List.mem_append_left _ (h.closed client hclient)
  · have hunique := r.unique_of_snapshot hbuilds.1
    have hcurrent := current_of_install hinstall hunique
    have hclosed : ∀ client ∈ s.closed ++ r.reached s.current, client ∈ s.built :=
      List.forall_mem_append.mpr ⟨h.closed, fun client hclient =>
        (h.current client ((r.reached_prefix _).subset hclient)).1⟩
    rw [heq]
    refine ⟨hbuilt rows, fun client hclient => ?_, ?_, fun client hclient => ?_⟩
    · rw [ReloadState.current, hcurrent] at hclient
      refine ⟨List.mem_append_right _ hclient, fun hmem => ?_⟩
      have hlt := h.built client (hclosed client hmem)
      rw [serial_of_made hclient] at hlt
      exact absurd hlt (Nat.lt_irrefl _)
    · rw [ReloadState.current, hcurrent]
      exact nodup_made hunique
    · exact List.mem_append_left _ (hclosed client hclient)

theorem reloads_sound (calls : List ReloadCall) : SoundReloads (reloads.state calls) :=
  reloads.invariant (fun _ s => SoundReloads s)
    ⟨List.forall_mem_nil _, List.forall_mem_nil _, List.nodup_nil, List.forall_mem_nil _⟩
    (fun _ _ r h => h.step r) calls

/-- A new client is neither current nor closed. -/
theorem SoundReloads.new {s : ReloadState} (h : SoundReloads s) {r : ReloadCall}
    {rows : List Backend} {client : Client}
    (hclient : client ∈ (BackendRegistry.made (r.clientFactory s.reloads) rows).map Prod.snd) :
    client ∉ s.built := fun hmem => by
  have hlt := h.built client hmem
  rw [serial_of_made hclient] at hlt
  exact Nat.lt_irrefl _ hlt

/-- Clients that a raising factory has made before are lost. -/
theorem noLeak_abandoned_iff {s : ReloadState} (h : NoLeak s) (hsound : SoundReloads s)
    {r : ReloadCall} {rows : List Backend} (hno : ¬ r.Builds rows)
    (hsnapshot : r.snapshot = some rows) :
    (∀ client ∈ s.built ++
      (BackendRegistry.made (r.clientFactory s.reloads) rows).map Prod.snd,
      client ∈ s.current ∨ s.closed.count client = 1) ↔ Tidy s r := by
  have hnone : (∀ client ∈ s.built ++
      (BackendRegistry.made (r.clientFactory s.reloads) rows).map Prod.snd,
      client ∈ s.current ∨ s.closed.count client = 1) ↔
      BackendRegistry.made (r.clientFactory s.reloads) rows = [] := by
    unfold NoLeak at h
    rw [List.forall_mem_append, and_iff_right h, ← List.map_eq_nil_iff (f := Prod.snd)]
    constructor
    · refine fun hkept => List.eq_nil_iff_forall_not_mem.mpr fun client hclient => ?_
      refine hsound.new hclient ?_
      obtain hcurrent | hcount := hkept client hclient
      · exact (hsound.current client hcurrent).1
      · exact hsound.closed client (List.count_pos_iff.mp (hcount ▸ Nat.one_pos))
    · intro hnil
      rw [hnil]
      exact List.forall_mem_nil _
  rw [hnone, BackendRegistry.made_eq_nil_iff]
  constructor
  · refine fun hraises => ⟨fun rows' first hrows' hfirst hok => ?_, fun rows' hbuilds => ?_⟩
    · obtain rfl := Option.some.inj (hsnapshot.symm.trans hrows')
      obtain ⟨e, he⟩ := hraises first hfirst
      rw [ReloadCall.clientFactory_eq_ok_iff.mpr ⟨hok, rfl⟩] at he
      exact nomatch he
    · obtain rfl := Option.some.inj (hsnapshot.symm.trans hbuilds.1)
      exact absurd hbuilds hno
  · intro htidy first hfirst
    cases hok : r.construct first with
    | ok u => exact absurd (htidy.construct rows first hsnapshot hfirst hok) hno
    | error e => exact ⟨e, by simp [ReloadCall.clientFactory, hok, Except.map]⟩

/-- Old clients that the closing loop does not reach are lost. -/
theorem noLeak_closed_iff {s : ReloadState} (h : NoLeak s) (hsound : SoundReloads s)
    {r : ReloadCall} :
    (∀ client ∈ s.built, (s.closed ++ r.reached s.current).count client = 1) ↔
      r.reached s.current = s.current := by
  constructor
  · intro hcount
    refine (r.reached_prefix s.current).eq_of_length_le (List.Subperm.length_le ?_)
    refine List.subperm_of_subset hsound.nodup fun client hclient => ?_
    obtain ⟨hbuilt, hopen⟩ := hsound.current client hclient
    have hone := hcount client hbuilt
    rw [List.count_append, List.count_eq_zero.mpr hopen, Nat.zero_add] at hone
    exact List.count_pos_iff.mp (hone ▸ Nat.one_pos)
  · intro hreached client hbuilt
    rw [hreached, List.count_append]
    obtain hcurrent | hclosed := h client hbuilt
    · rw [List.count_eq_zero.mpr (hsound.current client hcurrent).2,
        List.count_eq_one_of_mem hsound.nodup hcurrent]
    · have hmem : client ∈ s.closed := List.count_pos_iff.mp (hclosed ▸ Nat.one_pos)
      rw [hclosed, List.count_eq_zero.mpr fun hcurrent => (hsound.current client hcurrent).2 hmem]

/-- A reload leaks no client exactly if it is tidy. -/
theorem noLeak_serve_iff {s : ReloadState} (h : NoLeak s) (hsound : SoundReloads s)
    (r : ReloadCall) :
    NoLeak (reloads.serve s r).2 ↔ Tidy s r := by
  obtain ⟨hnone, e, heq⟩ | ⟨rows, hsnapshot, hno, e, heq⟩ |
    ⟨rows, registry, hbuilds, hinstall, result, heq⟩ := serve_cases s r
  · rw [heq]
    refine iff_of_true h ⟨fun rows first hrows => ?_, fun rows hbuilds => ?_⟩
    · exact nomatch hnone.symm.trans hrows
    · exact nomatch hnone.symm.trans hbuilds.1
  · rw [heq]
    exact noLeak_abandoned_iff h hsound hno hsnapshot
  · have hcurrent := current_of_install hinstall (r.unique_of_snapshot hbuilds.1)
    have htidy : Tidy s r ↔ r.reached s.current = s.current := by
      rw [ReloadCall.reached_eq_iff]
      refine ⟨fun htidy => htidy.aclose rows hbuilds, fun hclose => ⟨?_, fun _ _ => hclose⟩⟩
      intro rows' first hrows' _ _
      obtain rfl := Option.some.inj (hbuilds.1.symm.trans hrows')
      exact hbuilds
    rw [htidy, ← noLeak_closed_iff h hsound, heq, NoLeak, List.forall_mem_append,
      ReloadState.current, hcurrent]
    constructor
    · rintro ⟨hold, -⟩ client hbuilt
      exact (hold client hbuilt).resolve_left fun hnew => hsound.new hnew hbuilt
    · exact fun hold => ⟨fun client hbuilt => .inr (hold client hbuilt), fun _ => .inl⟩

/-- After every reload of a run each client that the factory has ever made is current or has
been closed once, exactly if all reloads are tidy. -/
theorem no_leak_iff (calls : List ReloadCall) :
    (∀ before, before <+: calls → NoLeak (reloads.state before)) ↔
      reloads.Along (fun _ s r => Tidy s r) calls :=
  reloads.always_iff_along NoLeak Tidy (List.forall_mem_nil _)
    (fun before r h => noLeak_serve_iff h (reloads_sound before) r) calls

/-- Without an API key the hosted row makes the factory raise, after it has made a client for
the row before. -/
def keylessReload : ReloadCall where
  read := .ok [⟨1, "local", .ollama, "", "m", 100, true, 0, 0⟩,
    ⟨2, "cloud", .hosted, "https://api", "m", 100, true, 0, 0⟩]
  exit := .ok ()
  construct row := (defaultClientFactory .failure (fun name => "'" ++ name ++ "'")
    (fun _ _ _ => .ok ⟨0⟩) (fun _ _ _ _ => .ok ⟨0⟩) "http://localhost:11434" none row).map
      fun _ => ()
  aclose _ := .ok ()
  unique rows hrows := by
    obtain rfl := Except.ok.inj hrows
    decide

theorem keyless_reload_leaks :
    ¬ ∀ before, before <+: [keylessReload] → NoLeak (reloads.state before) := fun h =>
  absurd (h _ List.prefix_rfl) (by decide +kernel)

end InferenceGateway.Orchestrator
