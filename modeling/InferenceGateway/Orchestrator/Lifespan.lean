import InferenceGateway.Orchestrator.ReloadRuns

/-!
# The life of the registry

A process reloads its registry when it starts, whatever that raises, reloads it at every upsert,
and closes it when it stops. A client that a reload has lost is closed by nothing that comes
later.
-/
namespace InferenceGateway.Orchestrator
open Library Library.Action Backends

/-- What `BackendRegistry.aclose` meets: how closing each client goes. -/
def closing (aclose : Client → Except Raised Unit) : ReloadCall where
  read := .ok []
  exit := .ok ()
  construct _ := .ok ()
  aclose := aclose
  unique _ hrows := Except.ok.inj hrows ▸ List.nodup_nil

/-- `BackendRegistry.aclose`. The maps are emptied after the loop, if it does not raise. -/
def acloseRegistry (aclose : Client → Except Raised Unit) (s : ReloadState) :
    Except Raised Unit × ReloadState :=
  let run := (acloseAll s.current).exec (closing aclose).answer s
  match run.1 with
  | .ok _ => (.ok (), { run.2 with registry := {} })
  | .error e => (.error e, run.2)

/-- What one process meets: the reload at its start, those that follow, and the closing. -/
structure Life where
  startup : ReloadCall
  later : List ReloadCall
  aclose : Client → Except Raised Unit

namespace Life

variable (life : Life)

/-- The reloads of the process. If what the first one raises is no `Exception`, the process does
not begin to serve. -/
def calls : List ReloadCall :=
  match (reloads.serve {} life.startup).1 with
  | .error e => if e.isException then life.startup :: life.later else [life.startup]
  | .ok _ => life.startup :: life.later

/-- `lifespan`, as far as the registry goes: how it ends and what it leaves behind. -/
def lifespan : Except Raised Unit × ReloadState :=
  match (reloads.serve {} life.startup).1 with
  | .error e =>
    if e.isException then acloseRegistry life.aclose (reloads.state life.calls)
    else (.error e, reloads.state life.calls)
  | .ok _ => acloseRegistry life.aclose (reloads.state life.calls)

end Life

section States
variable {s : ReloadState} {r : ReloadCall} {client : Client} {aclose : Client → Except Raised Unit}

/-- Whether closing raises or not, `aclose` is called on the clients that the loop reaches. -/
theorem acloseRegistry_eq (aclose : Client → Except Raised Unit) (s : ReloadState) :
    (acloseRegistry aclose s).2.built = s.built ∧
    (acloseRegistry aclose s).2.closed = s.closed ++ (closing aclose).reached s.current := by
  obtain ⟨result, hclose⟩ := (closing aclose).exec_acloseAll s.current s
  cases result <;> simp [acloseRegistry, hclose]

/-- A client that was made and is neither current nor closed once. -/
structure Lost (s : ReloadState) (client : Client) : Prop where
  built : client ∈ s.built
  current : client ∉ s.current
  closed : s.closed.count client ≠ 1

theorem not_noLeak_iff : ¬ NoLeak s ↔ ∃ client, Lost s client := by
  unfold NoLeak
  push Not
  exact ⟨fun ⟨client, hbuilt, hcurrent, hclosed⟩ => ⟨client, hbuilt, hcurrent, hclosed⟩,
    fun ⟨client, h⟩ => ⟨client, h.built, h.current, h.closed⟩⟩

/-- What is lost stays lost: the registry has forgotten it, and every later client is new. -/
theorem Lost.step (h : Lost s client) (hsound : SoundReloads s) (r : ReloadCall) :
    Lost (reloads.serve s r).2 client := by
  obtain ⟨-, e, heq⟩ | ⟨rows, -, -, e, heq⟩ | ⟨rows, registry, hbuilds, hinstall, result, heq⟩ :=
    ReloadCall.serve_cases s r
  · rw [heq]
    exact ⟨h.built, h.current, h.closed⟩
  · rw [heq]
    exact ⟨List.mem_append_left _ h.built, h.current, h.closed⟩
  · have hcurrent := ReloadCall.current_of_install hinstall (r.unique_of_snapshot hbuilds.1)
    have hunreached : client ∉ r.reached s.current := fun hmem =>
      h.current ((r.reached_prefix _).subset hmem)
    rw [heq]
    refine ⟨List.mem_append_left _ h.built, fun hnew => ?_, ?_⟩
    · rw [ReloadState.current, hcurrent] at hnew
      exact hsound.new hnew h.built
    · rw [List.count_append, List.count_eq_zero.mpr hunreached]
      exact h.closed

theorem Lost.append {calls : List ReloadCall} (h : Lost (reloads.state calls) client)
    (later : List ReloadCall) : Lost (reloads.state (calls ++ later)) client := by
  induction later using List.reverseRecOn with
  | nil => rwa [List.append_nil]
  | append_singleton later r ih =>
    rw [← List.append_assoc, Service.state_concat]
    exact ih.step (reloads_sound _) r

/-- The clients are all accounted for at the end exactly if they were so all the time. -/
theorem noLeak_state_iff (calls : List ReloadCall) :
    NoLeak (reloads.state calls) ↔ reloads.Along (fun _ s r => Tidy s r) calls := by
  have halways := reloads.always_iff_along NoLeak Tidy (List.forall_mem_nil _)
    (fun before r h => noLeak_serve_iff h (reloads_sound before) r) calls
  refine ⟨fun hlast => halways.mp ?_, fun htidy => halways.mpr htidy calls List.prefix_rfl⟩
  rintro before ⟨later, rfl⟩
  by_contra hleak
  obtain ⟨client, hlost⟩ := not_noLeak_iff.mp hleak
  exact not_noLeak_iff.mpr ⟨client, hlost.append later⟩ hlast

theorem nodup_append_reached (h : s.closed.Nodup) (hsound : SoundReloads s) (r : ReloadCall) :
    (s.closed ++ r.reached s.current).Nodup := by
  have hreaches := r.reached_prefix s.current
  refine List.nodup_append.mpr ⟨h, hsound.nodup.sublist hreaches.sublist, ?_⟩
  rintro client hclosed _ hreached rfl
  exact (hsound.current client (hreaches.subset hreached)).2 hclosed

/-- No client is closed twice, whatever raises. -/
theorem nodup_closed (calls : List ReloadCall) : (reloads.state calls).closed.Nodup := by
  induction calls using List.reverseRecOn with
  | nil => exact List.nodup_nil
  | append_singleton calls r ih =>
    rw [Service.state_concat]
    obtain ⟨-, e, heq⟩ | ⟨rows, -, -, e, heq⟩ | ⟨rows, registry, -, -, result, heq⟩ :=
      ReloadCall.serve_cases (reloads.state calls) r
    · rw [heq]
      exact ih
    · rw [heq]
      exact ih
    · rw [heq]
      exact nodup_append_reached ih (reloads_sound calls) r

/-- The first reload of a process has nothing to close, so it does not raise after its swap. -/
theorem serve_startup {rows : List Backend} (h : r.Builds rows) :
    (reloads.serve {} r).1 = .ok () := by
  have hserve := @ReloadCall.serve_eq r {}
  have hsnapshot := h.1
  unfold ReloadCall.snapshot at hsnapshot
  split at hsnapshot
  · rename_i rows' u hread hexit
    obtain rfl := Option.some.inj hsnapshot
    obtain ⟨maps, hbuild⟩ := (ReloadCall.builds_iff_build 0 h.1).mp h
    have hanswer := ReloadCall.answer_install (r := r) {} rows'
    rw [hbuild] at hanswer
    unfold reload at hserve
    rw [exec_bind_ok (a := rows') (t := {}) (by simp [ReloadCall.answer, hread]),
      exec_bind_ok (a := u) (t := {}) (by simp [ReloadCall.answer, hexit]),
      exec_bind_ok (a := []) (by exact hanswer)] at hserve
    rw [hserve rfl]
  · exact absurd hsnapshot (by simp)

theorem current_of_startup_error {e : Raised} (h : (reloads.serve {} r).1 = .error e) :
    (reloads.state [r]).current = [] := by
  have hno : ∀ rows, ¬ r.Builds rows := fun rows hbuilds => by
    rw [serve_startup hbuilds] at h
    exact absurd h (by simp)
  have hregistry : (reloads.state ([] ++ [r])).registry = (reloads.state []).registry :=
    registry_append (by simpa using hno)
  rw [ReloadState.current, ← List.nil_append [r], hregistry]
  rfl

/-- Closing the registry closes all clients once if none has been lost and the loop reaches all
that are current. -/
theorem closed_once_iff (calls : List ReloadCall) (aclose : Client → Except Raised Unit) :
    (∀ client ∈ (reloads.state calls).built, ((reloads.state calls).closed ++
        (closing aclose).reached (reloads.state calls).current).count client = 1) ↔
      reloads.Along (fun _ s r => Tidy s r) calls ∧
        ∀ client ∈ (reloads.state calls).current.dropLast, aclose client = .ok () := by
  have hsound := reloads_sound calls
  have hreached := @ReloadCall.reached_eq_iff (closing aclose) (reloads.state calls).current
  rw [← noLeak_state_iff, ← show _ ↔ ∀ client ∈ _, aclose client = .ok () from hreached]
  constructor
  · intro hall
    have hkept : NoLeak (reloads.state calls) := by
      by_contra hleak
      obtain ⟨client, hlost⟩ := not_noLeak_iff.mp hleak
      have hunreached : client ∉ (closing aclose).reached (reloads.state calls).current :=
        fun hmem => hlost.current ((ReloadCall.reached_prefix _).subset hmem)
      have hone := hall client hlost.built
      rw [List.count_append, List.count_eq_zero.mpr hunreached] at hone
      exact hlost.closed hone
    exact ⟨hkept, (noLeak_closed_iff hkept hsound).mp hall⟩
  · rintro ⟨hkept, hreached⟩
    exact (noLeak_closed_iff hkept hsound).mpr hreached

theorem registry_of_acloseRegistry (h : (acloseRegistry aclose s).1 = .ok ()) :
    (acloseRegistry aclose s).2.registry = {} := by
  simp only [acloseRegistry] at h ⊢
  split
  · rfl
  · rename_i e hraises
    rw [hraises] at h
    exact absurd h (by simp)

/-- A process does not begin to serve, or it closes its registry. -/
theorem Life.lifespan_cases (life : Life) :
    (∃ e, (reloads.serve {} life.startup).1 = .error e ∧ life.calls = [life.startup] ∧
      life.lifespan = (.error e, reloads.state life.calls)) ∨
    life.lifespan = acloseRegistry life.aclose (reloads.state life.calls) := by
  cases hstart : (reloads.serve {} life.startup).1 with
  | ok u => exact .inr (by simp [Life.lifespan, hstart])
  | error e =>
    cases hkind : e.isException with
    | true => exact .inr (by simp [Life.lifespan, hstart, hkind])
    | false =>
      exact .inl ⟨e, rfl, by simp [Life.calls, hstart, hkind],
        by simp [Life.lifespan, hstart, hkind]⟩

end States

/-- Over the life of a process no client is closed twice. Every client that was ever made has been
closed once when the process ends, exactly if all reloads were tidy and the closing of the
registry reaches all current clients; and a registry that was closed offers nothing. -/
theorem lifespan_closes (life : Life) :
    let s := life.lifespan.2
    s.closed.Nodup ∧
    ((∀ client ∈ s.built, s.closed.count client = 1) ↔
      reloads.Along (fun _ s r => Tidy s r) life.calls ∧
        ∀ client ∈ (reloads.state life.calls).current.dropLast, life.aclose client = .ok ()) ∧
    (life.lifespan.1 = .ok () → ∀ model, s.registry.candidates model = some []) := by
  intro s
  have hcloses := closed_once_iff life.calls life.aclose
  obtain ⟨e, hraises, hcalls, hlife⟩ | hlife := life.lifespan_cases
  · have hs : s = reloads.state life.calls := congrArg Prod.snd hlife
    have hcurrent : (reloads.state life.calls).current = [] :=
      hcalls ▸ current_of_startup_error hraises
    rw [hcurrent, show (closing life.aclose).reached [] = [] from rfl, List.append_nil,
      ← hcurrent] at hcloses
    rw [hs, hlife]
    exact ⟨nodup_closed life.calls, hcloses, fun hok => absurd hok (by simp)⟩
  · obtain ⟨hbuilt, hclosed⟩ := acloseRegistry_eq life.aclose (reloads.state life.calls)
    rw [← hlife] at hbuilt hclosed
    rw [hbuilt, hclosed]
    refine ⟨nodup_append_reached (nodup_closed _) (reloads_sound _) _, hcloses,
      fun hok model => ?_⟩
    have hempty : life.lifespan.2.registry = {} := by
      rw [hlife] at hok ⊢
      exact registry_of_acloseRegistry hok
    rw [hempty]
    rfl

end InferenceGateway.Orchestrator
