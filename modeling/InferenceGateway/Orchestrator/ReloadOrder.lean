import InferenceGateway.Library.Schedule
import InferenceGateway.Orchestrator.AdminUpsert
import InferenceGateway.Orchestrator.Provenance

/-!
# Reloads that overtake each other

Any number of `POST /admin/backends` requests in one process. Each commits its row, reads
the table, leaves the session and swaps the maps, and the others run between any two of
these steps. A swap is stale if another request has committed a row since the table was
read; if that request has swapped too, nobody is left to repair it.
-/
namespace InferenceGateway.Orchestrator
open Library Library.Action Backends Persistence Redis
open scoped List

/-! ## Upserts side by side -/

/-- The reply to an operation of an upsert is not an exception. -/
def Replied (op : Op) (r : Reply op) : Prop := AdminOp op → ∃ a, r = .ok a

/-- Upserts from any world. None of their operations raises. -/
def upserts (cache : TwoTierCache) (w : World) :
    Pool.System Nat World Op Reply (Except Raised Backend) where
  initial := w
  starts _ p := ∃ body, p = (upsertBackend body).run
  handle w op r w' := Handles cache w op r w' ∧ Replied op r
  drift _ _ := False

/-- The operations performed, each with the request it belongs to. -/
def performed (history : List (Nat × Event)) : List (Nat × Op) :=
  history.map fun e => (e.1, e.2.1)

/-- A request has swapped in rows that it read before another one committed, after that one
had swapped. -/
def Overtaken (history : List (Nat × Event)) : Prop :=
  ∃ late early body rows staleRows, [(late, Op.listBackends), (early, .upsert body),
    (early, .install rows), (late, .install staleRows)] <+ performed history

/-! ## The events of one upsert -/

/-- All that a reload does if nothing raises. -/
def ReloadTrace (trace : List Event) : Prop :=
  ∃ rows oldClients closes, trace = ⟨.listBackends, .ok rows⟩ :: ⟨.closeSession, .ok ()⟩ ::
      ⟨.install rows, .ok oldClients⟩ :: closes ∧
    ∀ e ∈ closes, ∃ client, e.1 = .aclose client

theorem wp_replied {op : Op} {Q : List Event → Except Raised (Ret op) → Prop} (hop : AdminOp op)
    (h : ∀ a, Q [⟨op, .ok a⟩] (.ok a)) : wp (.expecting Replied) (call op) Q := by
  refine (wp_call _ _).mpr ⟨trivial, fun r hr => ?_⟩
  obtain ⟨a, rfl⟩ := hr hop
  exact h a

theorem acloseAll_trace (clients : List Client) : wp (.expecting Replied) (acloseAll clients)
    fun trace _ => ∀ e ∈ trace, ∃ client, e.1 = .aclose client := by
  induction clients with
  | nil => exact fun e he => nomatch he
  | cons client clients ih =>
    refine (wp_bind _).mpr (wp_replied trivial fun _ => wp_mono ih fun trace _ htrace => ?_)
    exact List.forall_mem_cons.mpr ⟨⟨client, rfl⟩, htrace⟩

theorem reload_trace : wp (.expecting Replied) reload fun trace _ => ReloadTrace trace := by
  refine (wp_bind _).mpr (wp_replied trivial fun rows => ?_)
  refine (wp_bind _).mpr (wp_replied trivial fun _ => ?_)
  refine (wp_bind _).mpr (wp_replied trivial fun oldClients => ?_)
  exact wp_mono (acloseAll_trace oldClients) fun closes _ hcloses =>
    ⟨rows, oldClients, closes, rfl, hcloses⟩

theorem upsertBackend_trace (body : BackendUpsert) : wp (.expecting Replied) (upsertBackend body)
    fun trace _ => ∃ row reloaded, trace = ⟨.upsert body, .ok row⟩ :: reloaded ∧
      ReloadTrace reloaded := by
  refine (wp_bind _).mpr (wp_replied trivial fun row => (wp_bind _).mpr (wp_mono reload_trace ?_))
  intro reloaded r hreloaded
  cases r with
  | error e => exact ⟨row, reloaded, rfl, hreloaded⟩
  | ok u => exact ⟨row, reloaded ++ [], rfl, by rwa [List.append_nil]⟩

/-! ## What a run of upserts has established -/

section Runs
variable {cache : TwoTierCache} {w₀ : World} {w : Pool Nat World Op Reply (Except Raised Backend)}

theorem handle_table {op : Op} {r : Reply op} {w w' : World} (hhandle : Handles cache w op r w')
    (hop : ∀ body, op ≠ .upsert body) : w'.table = w.table := by
  cases op with
  | upsert body => exact absurd rfl (hop body)
  | exactPut => obtain ⟨now, rfl⟩ | ⟨rfl, -⟩ := hhandle <;> rfl
  | insertEntry => obtain rfl | ⟨rfl, -⟩ := hhandle <;> rfl
  | exactGet | findSimilar | candidates | listBackends =>
    obtain ⟨rfl, -⟩ := hhandle
    rfl
  | install rows =>
    obtain ⟨clientFactory, hinstall⟩ := hhandle
    split at hinstall <;> obtain ⟨rfl, -⟩ := hinstall <;> rfl
  | _ =>
    obtain rfl : w' = w := hhandle
    rfl

theorem handle_registry {op : Op} {r : Reply op} {w w' : World} (hhandle : Handles cache w op r w')
    (hop : ∀ rows, op ≠ .install rows) : w'.registry = w.registry := by
  cases op with
  | install rows => exact absurd rfl (hop rows)
  | exactPut => obtain ⟨now, rfl⟩ | ⟨rfl, -⟩ := hhandle <;> rfl
  | insertEntry => obtain rfl | ⟨rfl, -⟩ := hhandle <;> rfl
  | upsert => obtain ⟨uuid4, rfl, -⟩ | ⟨rfl, -⟩ := hhandle <;> rfl
  | exactGet | findSimilar | candidates | listBackends =>
    obtain ⟨rfl, -⟩ := hhandle
    rfl
  | _ =>
    obtain rfl : w' = w := hhandle
    rfl

/-- Rows that were read are those of the table until the next commit. -/
theorem perm_of_read (h : Pool.Reachable (upserts cache w₀) w) {before after : List (Nat × Event)}
    {tag : Nat} {rows : List Backend}
    (hhistory : w.history = before ++ (tag, ⟨.listBackends, .ok rows⟩) :: after)
    (hafter : ∀ e ∈ after, ∀ body, e.2.1 ≠ .upsert body) : rows.Perm w.state.table := by
  refine h.since (fun e (w : World) => ∀ rows, e.2 = ⟨.listBackends, .ok rows⟩ →
    rows.Perm w.table) (fun e => ∃ body, e.2.1 = .upsert body) ?_ ?_ ?_
    hhistory (by simpa using hafter) rows rfl
  · rintro tag op r w w' ⟨hhandle, -⟩ rows heq
    obtain ⟨rfl, heq⟩ := Sigma.mk.inj heq
    obtain rfl := eq_of_heq heq
    obtain ⟨rfl, ⟨rows', hperm, hr⟩ | ⟨e, hr⟩⟩ := hhandle
    · obtain rfl := Except.ok.inj hr
      exact hperm
    · exact nomatch hr
  · rintro e tag op r w w' hP hbreaks ⟨hhandle, -⟩ rows heq
    rw [handle_table hhandle fun body hbody => hbreaks ⟨body, hbody⟩]
    exact hP rows heq
  · exact fun _ _ _ _ hdrift => hdrift.elim

/-- The registry reflects the rows of the last swap. -/
theorem reflects_of_swap (h : Pool.Reachable (upserts cache w₀) w)
    {before after : List (Nat × Event)} {tag : Nat} {rows : List Backend} {oldClients : List Client}
    (hhistory : w.history = before ++ (tag, ⟨.install rows, .ok oldClients⟩) :: after)
    (hafter : ∀ e ∈ after, ∀ rows, e.2.1 ≠ .install rows) : w.state.registry.Reflects rows := by
  refine h.since (fun e (w : World) => ∀ rows oldClients,
    e.2 = ⟨.install rows, .ok oldClients⟩ → w.registry.Reflects rows)
    (fun e => ∃ rows, e.2.1 = .install rows) ?_ ?_ ?_
    hhistory (by simpa using hafter) rows oldClients rfl
  · rintro tag op r w w' ⟨hhandle, -⟩ rows oldClients heq
    obtain ⟨rfl, heq⟩ := Sigma.mk.inj heq
    obtain rfl := eq_of_heq heq
    obtain ⟨clientFactory, hinstall⟩ := hhandle
    split at hinstall
    · rename_i hnew
      obtain ⟨rfl, -⟩ := hinstall
      exact BackendRegistry.reflects_install hnew
    · exact nomatch hinstall.2
  · rintro e tag op r w w' hP hbreaks ⟨hhandle, -⟩ rows oldClients heq
    rw [handle_registry hhandle fun rows hrows => hbreaks ⟨rows, hrows⟩]
    exact hP rows oldClients heq
  · exact fun _ _ _ _ hdrift => hdrift.elim

theorem replied_history (h : Pool.Reachable (upserts cache w₀) w) :
    ∀ e ∈ w.history, Replied e.2.1 e.2.2 :=
  h.forall_mem_history (S := upserts cache w₀) (fun e => Replied e.2.1 e.2.2)
    fun _ _ _ _ _ hhandle => hhandle.2

/-- The events of an upsert that has finished. -/
theorem own_finished (h : Pool.Reachable (upserts cache w₀) w)
    (hnodup : (w.tasks.map Prod.fst).Nodup) {tag : Nat} {r : Except Raised Backend}
    (hdone : (tag, .pure r) ∈ w.tasks) :
    ∃ body row reloaded, Pool.own tag w.history = ⟨.upsert body, .ok row⟩ :: reloaded ∧
      ReloadTrace reloaded := by
  obtain ⟨p, ⟨body, rfl⟩, hfollows⟩ := h.follows hnodup _ hdone
  obtain ⟨row, reloaded, htrace⟩ := hfollows.ended (upsertBackend_trace body) fun e he =>
    replied_history h _ (Pool.mem_own.mp he)
  exact ⟨body, row, reloaded, htrace⟩

theorem ReloadTrace.ne_upsert {trace : List Event} (h : ReloadTrace trace) :
    ∀ e ∈ trace, ∀ body, e.1 ≠ .upsert body := by
  obtain ⟨rows, oldClients, closes, rfl, hcloses⟩ := h
  simp only [List.forall_mem_cons]
  refine ⟨nofun, nofun, nofun, fun e he body => ?_⟩
  obtain ⟨client, hclient⟩ := hcloses e he
  rw [hclient]
  exact nofun

theorem ReloadTrace.exists_swap {trace : List Event} (h : ReloadTrace trace) :
    ∃ rows oldClients, ⟨.install rows, .ok oldClients⟩ ∈ trace := by
  obtain ⟨rows, oldClients, closes, rfl, -⟩ := h
  exact ⟨rows, oldClients, by simp⟩

/-- What is swapped in is what was read. -/
theorem ReloadTrace.read_of_swap {trace : List Event} (h : ReloadTrace trace) {rows : List Backend}
    {oldClients : List Client} (hswap : ⟨.install rows, .ok oldClients⟩ ∈ trace) :
    ⟨.listBackends, .ok rows⟩ ∈ trace := by
  obtain ⟨rows', oldClients', closes, rfl, hcloses⟩ := h
  simp only [List.mem_cons, Sigma.mk.injEq, reduceCtorEq, false_and, false_or, Op.install.injEq]
    at hswap
  obtain ⟨rfl, -⟩ | hclose := hswap
  · exact List.mem_cons_self
  · exact nomatch hcloses _ hclose

/-- Before its commit there is nothing of an upsert that has finished, and its reload is
after it. -/
theorem own_around_commit {tag : Nat} {body : BackendUpsert} {r : Reply (.upsert body)}
    {before after : List (Nat × Event)} {committed : BackendUpsert} {row : Backend}
    {reloaded : List Event} (hown : Pool.own tag (before ++ (tag, ⟨.upsert body, r⟩) :: after) =
      ⟨.upsert committed, .ok row⟩ :: reloaded) (hreloaded : ReloadTrace reloaded) :
    Pool.own tag before = [] ∧ Pool.own tag after = reloaded := by
  rw [Pool.own_append, Pool.own_cons_self] at hown
  cases hbefore : Pool.own tag before with
  | nil =>
    rw [hbefore] at hown
    exact ⟨rfl, (List.cons.inj hown).2⟩
  | cons e earlier =>
    rw [hbefore] at hown
    have hmem : ⟨.upsert body, r⟩ ∈ reloaded := by
      rw [← (List.cons.inj hown).2]
      exact List.mem_append_right _ List.mem_cons_self
    exact absurd rfl (hreloaded.ne_upsert _ hmem body)

/-- All upserts have finished. -/
def Finished (w : Pool Nat World Op Reply (Except Raised Backend)) : Prop :=
  (w.tasks.map Prod.fst).Nodup ∧ ∀ task ∈ w.tasks, ∃ r, task.2 = .pure r

theorem Finished.own (hdone : Finished w) (h : Pool.Reachable (upserts cache w₀) w) :
    ∀ tag ∈ w.tasks.map Prod.fst, ∃ body row reloaded,
      Pool.own tag w.history = ⟨.upsert body, .ok row⟩ :: reloaded ∧ ReloadTrace reloaded := by
  intro tag htag
  obtain ⟨⟨_, p⟩, htask, rfl⟩ := List.mem_map.mp htag
  obtain ⟨r, rfl⟩ := hdone.2 _ htask
  exact own_finished h hdone.1 htask

/-- There is a last commit, and all of its request's reload comes after it. -/
theorem exists_last_commit (h : Pool.Reachable (upserts cache w₀) w) (hdone : Finished w)
    (hsome : w.tasks ≠ []) :
    ∃ before early body row after, w.history = before ++ (early, ⟨.upsert body, row⟩) :: after ∧
      (∀ e ∈ after, ∀ body, e.2.1 ≠ .upsert body) ∧ Pool.own early before = [] ∧
      ReloadTrace (Pool.own early after) := by
  have hcommit : ∃ e ∈ w.history, ∃ body, e.2.1 = .upsert body := by
    obtain ⟨task, htask⟩ := List.exists_mem_of_ne_nil _ hsome
    obtain ⟨body, row, reloaded, htrace, -⟩ := hdone.own h _ (List.mem_map_of_mem htask)
    exact ⟨_, Pool.mem_own.mp (htrace ▸ List.mem_cons_self), body, rfl⟩
  obtain ⟨before, ⟨early, op, row⟩, after, hhistory, ⟨body, hop⟩, hafter⟩ :=
    Pool.exists_last _ hcommit
  obtain rfl : op = .upsert body := hop
  have hmem : (early, ⟨.upsert body, row⟩) ∈ w.history := by simp [hhistory]
  obtain ⟨_, _, reloaded, htrace, hreloaded⟩ := hdone.own h _ (h.mem_tags _ hmem)
  obtain ⟨hbefore, hown⟩ := own_around_commit (hhistory ▸ htrace) hreloaded
  exact ⟨before, early, body, row, after, hhistory,
    fun e he body hbody => hafter e he ⟨body, hbody⟩, hbefore, hown ▸ hreloaded⟩

/-- What a swap installs has been read by the same request. -/
theorem read_of_swap (h : Pool.Reachable (upserts cache w₀) w) (hdone : Finished w) {late : Nat}
    {rows : List Backend} {oldClients : List Client}
    (hswap : (late, ⟨.install rows, .ok oldClients⟩) ∈ w.history) :
    (late, ⟨.listBackends, .ok rows⟩) ∈ w.history := by
  obtain ⟨body, row, reloaded, htrace, hreloaded⟩ := hdone.own h _ (h.mem_tags _ hswap)
  have hinstalled : ⟨.install rows, .ok oldClients⟩ ∈ reloaded := by
    have hmem := htrace ▸ Pool.mem_own.mpr hswap
    simpa using hmem
  exact Pool.mem_own.mp (htrace ▸ List.mem_cons_of_mem _ (hreloaded.read_of_swap hinstalled))

/-- There is a last swap among these events if there is one at all. -/
theorem exists_last_swap (h : Pool.Reachable (upserts cache w₀) w)
    {before after : List (Nat × Event)}
    (hhistory : w.history = before ++ after) {early : Nat} {rows : List Backend}
    {oldClients : List Client} (hswap : (early, ⟨.install rows, .ok oldClients⟩) ∈ after) :
    ∃ mid late stale old rest, after = mid ++ (late, ⟨.install stale, .ok old⟩) :: rest ∧
      (∀ e ∈ rest, ∀ rows, e.2.1 ≠ .install rows) ∧
      (early ≠ late → (early, ⟨.install rows, .ok oldClients⟩) ∈ mid) := by
  obtain ⟨mid, ⟨late, op, reply⟩, rest, rfl, ⟨stale, hop⟩, hrest⟩ :=
    Pool.exists_last (fun e : Nat × Event => ∃ rows, e.2.1 = .install rows) ⟨_, hswap, rows, rfl⟩
  obtain rfl : op = .install stale := hop
  have hlate : (late, ⟨.install stale, reply⟩) ∈ w.history := by simp [hhistory]
  obtain ⟨old, rfl⟩ : ∃ old : List Client, reply = .ok old := replied_history h _ hlate trivial
  refine ⟨mid, late, stale, old, rest, rfl, fun e he rows hrows => hrest e he ⟨rows, hrows⟩, ?_⟩
  intro hne
  rw [List.mem_append, List.mem_cons] at hswap
  obtain hmid | heq | hafter := hswap
  · exact hmid
  · exact absurd (congrArg Prod.fst heq) hne
  · exact absurd ⟨rows, rfl⟩ (hrest _ hafter)

/-- The rows of the last swap were read after the last commit, unless its request has been
overtaken. -/
theorem reflects_of_not_overtaken (h : Pool.Reachable (upserts cache w₀) w) (hdone : Finished w)
    (hsome : w.tasks ≠ []) (hkept : ¬ Overtaken w.history) :
    w.state.registry.Reflects w.state.table := by
  obtain ⟨before, early, body, row, after, hhistory, hlast, hbefore, hreloaded⟩ :=
    exists_last_commit h hdone hsome
  obtain ⟨rows, oldClients, hswap⟩ := hreloaded.exists_swap
  obtain ⟨mid, late, stale, old, rest, rfl, hrest, hmid⟩ := exists_last_swap h
    (hhistory.trans (List.append_cons ..)) (Pool.mem_own.mp hswap)
  have hreflects : w.state.registry.Reflects stale := by
    have hsplit : w.history = (before ++ (early, ⟨.upsert body, row⟩) :: mid) ++
        (late, ⟨.install stale, .ok old⟩) :: rest := by simp [hhistory]
    exact reflects_of_swap h hsplit hrest
  have hswapped : (late, ⟨.install stale, .ok old⟩) ∈ w.history := by simp [hhistory]
  have hread := read_of_swap h hdone hswapped
  refine hreflects.of_perm ?_
  rw [hhistory, List.mem_append, List.mem_cons] at hread
  obtain hearlier | heq | hlater := hread
  · have hne : early ≠ late := by
      rintro rfl
      exact nomatch hbefore ▸ Pool.mem_own.mpr hearlier
    have hbefore : [(late, Op.listBackends)] <+ performed before :=
      List.singleton_sublist.mpr (List.mem_map_of_mem hearlier)
    have hmid : [(early, Op.install rows)] <+ performed mid :=
      List.singleton_sublist.mpr (List.mem_map_of_mem (hmid hne))
    have hall := hbefore.append ((hmid.append ((List.nil_sublist (performed rest)).cons_cons
      (late, Op.install stale))).cons_cons (early, Op.upsert body))
    exact absurd ⟨late, early, body, rows, stale, by simpa [performed, hhistory] using hall⟩ hkept
  · exact nomatch congrArg (fun e : Nat × Event => e.2.1) heq
  · obtain ⟨mid', rest', hsplit⟩ := List.append_of_mem hlater
    have hread : w.history = (before ++ (early, ⟨.upsert body, row⟩) :: mid') ++
        (late, ⟨.listBackends, .ok stale⟩) :: rest' := by
      rw [hhistory, hsplit, List.append_assoc, List.cons_append]
    exact perm_of_read h hread fun e he =>
      hlast e (hsplit ▸ List.mem_append_right _ (List.mem_cons_of_mem _ he))

end Runs

/-- If no request overtakes another one, then once all have finished the candidates for
every model are exactly the enabled rows of the table. -/
theorem no_lost_update (cache : TwoTierCache) (w₀ : World)
    {w : Pool Nat World Op Reply (Except Raised Backend)}
    (hreach : Pool.Reachable (upserts cache w₀) w) (hdone : Finished w)
    (hsome : w.tasks ≠ [] ∨ w₀.registry.Reflects w₀.table) (hkept : ¬ Overtaken w.history) :
    w.state.registry.Reflects w.state.table := by
  by_cases hnone : w.tasks = []
  · have hhistory : w.history = [] := List.eq_nil_iff_forall_not_mem.mpr fun e he => by
      simpa [hnone] using hreach.mem_tags e he
    rw [hreach.state_eq (fun _ _ => id) hhistory]
    exact hsome.resolve_left fun h => h hnone
  · exact reflects_of_not_overtaken hreach hdone hnone hkept

/-! ## Two upserts -/

def rowA (endpoint : String) : Backend := ⟨0, "a", .ollama, endpoint, "m", 100, true, 0, 0⟩
def rowB (endpoint : String) : Backend := ⟨1, "b", .ollama, endpoint, "m", 200, true, 0, 0⟩

/-- Two rows that no reload has read yet. -/
def twoBackends : World := ⟨Strings.empty, [], [rowA "old", rowB "old"], {}⟩

/-- New endpoints for both. -/
def bodyA : BackendUpsert := ⟨"a", .ollama, "new", "m", 100, 0, 0⟩
def bodyB : BackendUpsert := ⟨"b", .ollama, "new", "m", 200, 0, 0⟩

/-- Upserts have started and have taken turns in this order. -/
def afterTurns (bodies : List BackendUpsert) (turns : List Nat) :
    Pool Nat World Op Reply (Except Raised Backend) :=
  Pool.schedule (AdminSurroundings.withKey (some "sk") 1).answer
    ⟨twoBackends, [], bodies.zipIdx.map fun item => (item.2, (upsertBackend item.1).run)⟩ turns

theorem reachable_afterTurns (bodies : List BackendUpsert) (turns : List Nat) :
    Pool.Reachable (upserts sampleCache twoBackends) (afterTurns bodies turns) := by
  have hserve : ∀ w op, (upserts sampleCache twoBackends).handle w op
      ((AdminSurroundings.withKey (some "sk") 1).answer w op).1
      ((AdminSurroundings.withKey (some "sk") 1).answer w op).2 := by
    refine fun w op => ⟨AdminSurroundings.answer_handles .., fun hop => ?_⟩
    cases op with
    | upsert | listBackends | closeSession | aclose => exact ⟨_, rfl⟩
    | install rows =>
      obtain ⟨maps, hbuild⟩ : ∃ maps, BackendRegistry.build
          (AdminSurroundings.withKey (some "sk") 1).clientFactory rows {} = .ok maps :=
        BackendRegistry.exists_build_iff.mpr fun row _ _ => AdminSurroundings.makes_withKey row
      simp [AdminSurroundings.answer, BackendRegistry.install, hbuild]
    | _ => exact hop.elim
  refine Pool.Reachable.schedule hserve (Pool.Reachable.starts .initial ?_) turns
  rw [List.forall_mem_map]
  exact fun item _ => ⟨item.1, rfl⟩

/-- The steps that decide whether a request has been overtaken. -/
def Op.overtaking : Op → Nat
  | .listBackends => 1
  | .upsert _ => 2
  | .install _ => 3
  | _ => 0

/-- Each step of an overtaking with its tag and its kind. -/
theorem Overtaken.exists_sublist {history : List (Nat × Event)} (h : Overtaken history) :
    ∃ late early, [(late, 1), (early, 2), (early, 3), (late, 3)] <+
      (performed history).map fun e => (e.1, e.2.overtaking) := by
  obtain ⟨late, early, body, rows, staleRows, hsub⟩ := h
  exact ⟨late, early, hsub.map fun e : Nat × Op => (e.1, e.2.overtaking)⟩

/-- The first of two upserts has read the table when the second one commits, but swaps before
the second one does. -/
theorem no_lost_update_side_by_side :
    let w := afterTurns [bodyA, bodyB] [0, 0, 1, 0, 0, 1, 1, 1, 1, 1]
    Finished w ∧ w.tasks.length = 2 ∧ w.state.registry.Reflects w.state.table := by
  intro w
  have hsteps : (performed w.history).map (fun e => (e.1, e.2.overtaking)) =
      [(0, 2), (0, 1), (1, 2), (0, 0), (0, 3), (1, 1), (1, 0), (1, 3), (1, 0), (1, 0)] := by
    decide +kernel
  have hlength : w.tasks.length = 2 := by
    decide +kernel
  have hdone : Finished w := by
    refine ⟨by decide +kernel, ?_⟩
    simp only [← Pool.isPure_iff]
    decide +kernel
  have hkept : ¬ Overtaken w.history := by
    intro hovertaken
    obtain ⟨late, early, hsub⟩ := hovertaken.exists_sublist
    rw [hsteps] at hsub
    have hlate : (late, 3) ∈ [(0, 3), (1, 3)] := by
      simpa using hsub.subset (a := (late, 3)) (by simp)
    have hearly : (early, 3) ∈ [(0, 3), (1, 3)] := by
      simpa using hsub.subset (a := (early, 3)) (by simp)
    simp only [List.mem_cons, Prod.mk.injEq, and_true, List.not_mem_nil, or_false] at hlate hearly
    obtain rfl | rfl := hlate <;> obtain rfl | rfl := hearly <;> exact absurd hsub (by decide)
  exact ⟨hdone, hlength, no_lost_update _ _ (reachable_afterTurns _ _) hdone
    (.inl (List.ne_nil_of_length_eq_add_one hlength)) hkept⟩

/-- The first one reads the table, the second one commits and reloads, and then the first
one swaps in what it has read. -/
theorem stale_reload_wins : ∃ w, Pool.Reachable (upserts sampleCache twoBackends) w ∧
    Finished w ∧ w.tasks ≠ [] ∧ ¬ w.state.registry.Reflects w.state.table := by
  refine ⟨afterTurns [bodyA, bodyB] [0, 0, 0, 1, 1, 1, 1, 0, 0, 0], reachable_afterTurns _ _,
    ⟨?_, ?_⟩, ?_, ?_⟩
  · decide +kernel
  · simp only [← Pool.isPure_iff]
    decide +kernel
  · exact fun hnone => absurd (congrArg List.length hnone) (by decide +kernel)
  · intro hreflects
    obtain ⟨pairs, hpairs, hperm⟩ := hreflects "m"
    rw [BackendRegistry.map_fst_candidates hpairs] at hperm
    have hlisted : [BackendRepo.assign (rowA "old") bodyA, rowB "old"].Perm
        [BackendRepo.assign (rowA "old") bodyA, BackendRepo.assign (rowB "old") bodyB] :=
      (List.mergeSort_perm _ _).symm.trans hperm
    exact absurd hlisted (by decide +kernel)

end InferenceGateway.Orchestrator
