import InferenceGateway.Orchestrator.CallOrder
import InferenceGateway.Orchestrator.Evaluation
import InferenceGateway.Orchestrator.ReloadOrder

/-!
# Reloads and the requests in flight

A reload swaps the maps of the registry and then closes every client of the old one. A
request may still hold such a client: among its remaining candidates, in a call, or in a
stream. If no client is closed while a request can still use it, none is used after it
has been closed, and a failure is only recorded for a call that has raised by itself.
-/
namespace InferenceGateway.Orchestrator
open Library Library.Action Backends Cache Persistence Redis

/-- The gateway, and how many client objects have been made. -/
structure Running where
  world : World
  made : Nat

/-- The clients of a reload are new objects. -/
def NewClients (s s' : Running) : (op : Op) → Reply op → Prop
  | .install _, .ok _ => ∀ item ∈ s'.world.registry.clients,
      s.made ≤ item.2.serial ∧ item.2.serial < s'.made
  | _, _ => True

/-- Chat requests, upserts and reloads in one process, from an empty registry. -/
def hotReload (cache : TwoTierCache) (gw : RequestOrchestrator) (table : List Backend) :
    Pool.System Nat Running Op Reply Outcome where
  initial := ⟨⟨Strings.empty, [], table, {}⟩, 0⟩
  starts _ p := ∃ purpose, Starts gw purpose p
  handle s op r s' := Handles cache s.world op r s'.world ∧ s.made ≤ s'.made ∧ NewClients s s' op r
  drift s s' := Drift s.world s'.world ∧ s'.world.registry = s.world.registry ∧ s'.made = s.made

/-! ## Which clients are closed -/

def Closed (h : List (Nat × Event)) (client : Client) : Prop :=
  ∃ tag r, (tag, ⟨.aclose client, r⟩) ∈ h

/-- A swap has taken the client out of the registry. -/
def Retired (h : List (Nat × Event)) (client : Client) : Prop :=
  ∃ tag rows oldClients, (tag, ⟨.install rows, .ok oldClients⟩) ∈ h ∧ client ∈ oldClients

/-- What a swap returns has been retired. -/
def Handed (h : List (Nat × Event)) : (op : Op) → Reply op → Prop
  | .install _, .ok oldClients => ∀ client ∈ oldClients, Retired h client
  | _, _ => True

theorem Retired.later {h h' : List (Nat × Event)} {client : Client} (hr : Retired h client)
    (hle : h ⊆ h') : Retired h' client := by
  obtain ⟨tag, rows, oldClients, hmem, hclient⟩ := hr
  exact ⟨tag, rows, oldClients, hle hmem, hclient⟩

theorem Handed.later {h h' : List (Nat × Event)} {op : Op} {r : Reply op} (hr : Handed h op r)
    (hle : h ⊆ h') : Handed h' op r := by
  unfold Handed at hr ⊢
  split
  · exact fun client hclient => (hr client hclient).later hle
  · trivial

/-- Only retired clients are closed. -/
abbrev retiredContract (h : List (Nat × Event)) : Contract :=
  ⟨fun op => ∀ client, op = .aclose client → Retired h client, Handed h⟩

/-- Every client of the registry has been made, and none of them has been retired. -/
structure Retirement (s : Running) (h : List (Nat × Event)) : Prop where
  made : ∀ client ∈ s.world.registry.clients.map Prod.snd, client.serial < s.made
  retired : ∀ client, Retired h client →
    client.serial < s.made ∧ client ∉ s.world.registry.clients.map Prod.snd
  closed : ∀ client, Closed h client → Retired h client

section Retiring
variable {h : List (Nat × Event)}

theorem starts_retired {gw : RequestOrchestrator} {purpose : Purpose} {p : Program Op Reply Outcome}
    (hstart : Starts gw purpose p) :
    Program.wp (retiredContract h) p fun _ _ => True := by
  cases purpose with
  | request model =>
    refine Program.wp_of_trace (fun op => ⟨.error .cancelled, ?_⟩)
      (Program.wp_mono (hstart.orderly _) fun trace _ horderly e he client heq => ?_)
    · cases op <;> trivial
    · obtain ⟨before, after, rfl⟩ := List.append_of_mem he
      exact absurd (heq ▸ trivial) horderly.split.request
  | admin =>
    refine ClosesOld.wp_starts ⟨fun op _ hne client heq => absurd heq (hne client), ?_⟩ hstart
    rintro rows oldClients hhanded client hclient _ heq
    obtain rfl := Op.aclose.inj heq
    exact hhanded client hclient

theorem retired_concat {e : Nat × Event} {client : Client} (hr : Retired (h ++ [e]) client) :
    Retired h client ∨ ∃ tag rows oldClients, e = (tag, ⟨.install rows, .ok oldClients⟩) ∧
      client ∈ oldClients := by
  obtain ⟨tag, rows, oldClients, hmem, hclient⟩ := hr
  obtain hold | hnew := List.mem_append.mp hmem
  · exact .inl ⟨tag, rows, oldClients, hold, hclient⟩
  · exact .inr ⟨tag, rows, oldClients, (List.mem_singleton.mp hnew).symm, hclient⟩

theorem closed_concat {tag : Nat} {op : Op} {r : Reply op} {client : Client}
    (hc : Closed (h ++ [(tag, ⟨op, r⟩)]) client) : Closed h client ∨ op = .aclose client := by
  obtain ⟨tag', r', hmem⟩ := hc
  obtain hold | hlast := List.mem_append.mp hmem
  · exact .inl ⟨tag', r', hold⟩
  · obtain ⟨-, hevent⟩ := Prod.mk.inj (List.mem_singleton.mp hlast)
    exact .inr (congrArg Sigma.fst hevent).symm

/-- An operation swaps the maps and hands the old clients over, or leaves the registry. -/
theorem registry_cases {cache : TwoTierCache} {w w' : World} {op : Op} {r : Reply op}
    (hhandle : Handles cache w op r w') :
    (∃ rows, (⟨op, r⟩ : Event) = ⟨.install rows, .ok (w.registry.clients.map Prod.snd)⟩) ∨
      (w'.registry = w.registry ∧
        ∀ rows oldClients, (⟨op, r⟩ : Event) ≠ ⟨.install rows, .ok oldClients⟩) := by
  by_cases hop : ∃ rows, op = .install rows
  · obtain ⟨rows, rfl⟩ := hop
    obtain ⟨clientFactory, hinstall⟩ := hhandle
    split at hinstall
    · rename_i registry oldClients hnew
      obtain ⟨-, rfl⟩ := hinstall
      exact .inl ⟨rows, by rw [(BackendRegistry.clients_install hnew).2]⟩
    · obtain ⟨rfl, rfl⟩ := hinstall
      exact .inr ⟨rfl, fun rows oldClients heq => nomatch eq_of_heq (Sigma.mk.inj heq).2⟩
  · refine .inr ⟨handle_registry hhandle fun rows hrows => hop ⟨rows, hrows⟩, fun rows _ heq => ?_⟩
    exact hop ⟨rows, congrArg Sigma.fst heq⟩

/-- Each operation keeps retired clients out of the registry. -/
theorem Retirement.handle {cache : TwoTierCache} {gw : RequestOrchestrator} {table : List Backend}
    {s s' : Running} {tag : Nat} {op : Op} {r : Reply op} (hs : Retirement s h)
    (hallowed : ∀ client, op = .aclose client → Retired h client)
    (hhandle : (hotReload cache gw table).handle s op r s') :
    Retirement s' (h ++ [(tag, ⟨op, r⟩)]) ∧ Handed (h ++ [(tag, ⟨op, r⟩)]) op r := by
  obtain ⟨hhandle, hmade, hnew⟩ := hhandle
  have hle : h ⊆ h ++ [(tag, ⟨op, r⟩)] := List.subset_append_left _ _
  have hclosed : ∀ client, Closed (h ++ [(tag, ⟨op, r⟩)]) client →
      Retired (h ++ [(tag, ⟨op, r⟩)]) client := by
    intro client hc
    obtain hold | hop := closed_concat hc
    · exact (hs.closed client hold).later hle
    · exact (hallowed client hop).later hle
  obtain ⟨rows, hswap⟩ | ⟨hregistry, hkept⟩ := registry_cases hhandle
  · have hlt : ∀ client, Retired (h ++ [(tag, ⟨op, r⟩)]) client → client.serial < s.made := by
      intro client hretired
      obtain hold | ⟨_, _, oldClients, heq, hclient⟩ := retired_concat hretired
      · exact (hs.retired client hold).1
      · obtain ⟨hop, hr⟩ := Sigma.mk.inj (hswap.symm.trans (Prod.mk.inj heq).2)
        obtain rfl := Op.install.inj hop
        exact hs.made client (Except.ok.inj (eq_of_heq hr) ▸ hclient)
    obtain ⟨rfl, hr⟩ := Sigma.mk.inj hswap
    obtain rfl := eq_of_heq hr
    refine ⟨⟨?_, fun client hretired => ?_, hclosed⟩, fun client hclient => ?_⟩
    · exact List.forall_mem_map.mpr fun item hitem => (hnew item hitem).2
    · refine ⟨(hlt client hretired).trans_le hmade, fun hclient => ?_⟩
      obtain ⟨item, hitem, rfl⟩ := List.mem_map.mp hclient
      exact absurd (hlt _ hretired) (not_lt.mpr (hnew item hitem).1)
    · exact ⟨tag, rows, _, List.mem_append_right _ (List.mem_singleton_self _), hclient⟩
  · refine ⟨⟨fun client hclient => ?_, fun client hretired => ?_, hclosed⟩, ?_⟩
    · exact (hs.made client (hregistry ▸ hclient)).trans_le hmade
    · obtain hold | ⟨_, rows, _, heq, -⟩ := retired_concat hretired
      · obtain ⟨hlt, hnot⟩ := hs.retired client hold
        exact ⟨hlt.trans_le hmade, hregistry ▸ hnot⟩
      · exact absurd (Prod.mk.inj heq).2 (hkept rows _)
    · unfold Handed
      split
      · exact absurd rfl (hkept _ _)
      · trivial

/-- The rely-guarantee argument that retired clients stay out of the registry. -/
def retirement (cache : TwoTierCache) (gw : RequestOrchestrator) (table : List Backend) :
    Pool.Discipline (hotReload cache gw table) where
  contract _ := retiredContract
  result _ _ _ := True
  Inv := Retirement
  initial := ⟨nofun, fun _ ⟨_, _, _, hmem, _⟩ => (nomatch hmem),
    fun _ ⟨_, _, hmem⟩ => (nomatch hmem)⟩
  start _ _ hstart _ := starts_retired hstart.choose_spec
  lasting _ _ _ hle _ _ hp := Handed.later hp hle.subset
  handle _ _ _ _ _ _ hs hallowed hhandle := hs.handle hallowed hhandle
  drift _ _ _ hs hdrift := by
    obtain ⟨-, hregistry, hmade⟩ := hdrift
    refine ⟨?_, ?_, hs.closed⟩
    · rw [hregistry, hmade]
      exact hs.made
    · rw [hregistry, hmade]
      exact hs.retired

end Retiring

/-! ## Which clients can still be used -/

/-- The registry does not offer the client. -/
def NotOffered (client : Client) : (op : Op) → Reply op → Prop
  | .candidates _, .ok pairs => ∀ pair ∈ pairs, pair.2 ≠ client
  | _, _ => True

/-- The task does not use the client any more, unless the registry offers it again. -/
def Released (client : Client) (p : Program Op Reply Outcome) : Prop :=
  Program.wp ⟨fun op => ¬ op.Uses client, NotOffered client⟩ p fun _ _ => True

/-- A client is only closed when no task can use it any more. -/
def Drained (w : Pool Nat Running Op Reply Outcome) (_ : Nat) (op : Op) : Prop :=
  ∀ client, op = .aclose client → ∀ task ∈ w.tasks, Released client task.2

theorem AdminOp.not_uses {op : Op} (h : AdminOp op) (client : Client) : ¬ op.Uses client := by
  cases op <;> first | exact h.elim | exact id

/-- A task that has just started holds no client. -/
theorem starts_released {gw : RequestOrchestrator} {purpose : Purpose}
    {p : Program Op Reply Outcome} (hstart : Starts gw purpose p) (client : Client) :
    Released client p := by
  cases purpose with
  | request model =>
    refine Program.wp_of_trace (fun op => ⟨.error .cancelled, ?_⟩)
      (Program.wp_mono (Program.wp_kept (hstart.orderly _)) fun trace _ h e he huses => ?_)
    · cases op <;> trivial
    · obtain ⟨hkept, horderly⟩ := h
      obtain ⟨before, after, rfl⟩ := List.append_of_mem he
      obtain ⟨backend, model, pairs, hmem, hpair⟩ := horderly.split.offered client huses
      exact (hkept _ (List.mem_append_left _ hmem)).2 _ hpair rfl
  | admin =>
    exact ClosesOld.wp_starts ⟨fun op hop _ => hop.not_uses client, fun _ _ _ _ _ => id⟩ hstart

section Runs
variable {cache : TwoTierCache} {gw : RequestOrchestrator} {table : List Backend}
  {w : Pool Nat Running Op Reply Outcome}

/-- A closed client is not offered. -/
theorem notOffered_of_closed (h : Pool.Reachable (hotReload cache gw table) w) {client : Client}
    (hclosed : Closed w.history client) {op : Op} {r : Reply op} {s' : Running}
    (hhandle : (hotReload cache gw table).handle w.state op r s') : NotOffered client op r := by
  have hretirement : Retirement w.state w.history :=
    (Pool.Discipline.sound (D := retirement cache gw table) h).1
  have hgone := (hretirement.retired client (hretirement.closed client hclosed)).2
  unfold NotOffered
  split
  · rename_i model pairs
    intro pair hpair heq
    obtain ⟨⟨-, ⟨pairs', hpairs, hr⟩ | ⟨e, hr⟩⟩, -⟩ := hhandle
    · obtain rfl := Except.ok.inj hr
      exact hgone (heq ▸ BackendRegistry.mem_clients_of_candidates hpairs hpair)
    · exact nomatch hr
  · trivial

/-- No task can use a client that has been closed, and none has used it since. -/
theorem released_of_drained
    (h : Pool.ReachableUnder (hotReload cache gw table) Drained w) :
    (∀ client, Closed w.history client → ∀ task ∈ w.tasks, Released client task.2) ∧
      w.history.Pairwise fun first later =>
        ∀ client, first.2.1 = .aclose client → ¬ later.2.1.Uses client := by
  induction h with
  | initial => exact ⟨fun _ _ _ htask => (nomatch htask), .nil⟩
  | start h hstart ih =>
    refine ⟨fun client hclosed => List.forall_mem_append.mpr ⟨ih.1 client hclosed, ?_⟩, ih.2⟩
    obtain ⟨purpose, hstart⟩ := hstart
    exact List.forall_mem_singleton.mpr (starts_released hstart client)
  | @perform s s' history tag op next r before after h hguard hhandle ih =>
    obtain ⟨hreleased, hpairwise⟩ := ih
    have hall : ∀ client, Closed (history ++ [(tag, ⟨op, r⟩)]) client → NotOffered client op r ∧
        ∀ task ∈ before ++ (tag, .perform op next) :: after, Released client task.2 := by
      intro client hc
      obtain hclosed | hop := closed_concat hc
      · exact ⟨notOffered_of_closed h.reachable hclosed hhandle, hreleased client hclosed⟩
      · refine ⟨?_, hguard client hop⟩
        subst hop
        trivial
    constructor
    · intro client hclosed
      obtain ⟨hnot, htasks⟩ := hall client hclosed
      simp only [List.forall_mem_append, List.forall_mem_cons] at htasks ⊢
      exact ⟨htasks.1, htasks.2.1.2 r hnot, htasks.2.2⟩
    · refine List.pairwise_append.mpr ⟨hpairwise, List.pairwise_singleton _ _, ?_⟩
      rintro ⟨tag', op', r'⟩ hfirst later hlater client rfl
      obtain rfl := List.mem_singleton.mp hlater
      have hself :=
        hreleased client ⟨tag', r', hfirst⟩ _ (List.mem_append_right _ List.mem_cons_self)
      exact hself.1
  | drift h hdrift ih => exact ih

/-- Before a failure is recorded, the same request has performed an operation of a call of
the backend that has raised. -/
theorem failedCall_of_record (h : Pool.Reachable (hotReload cache gw table) w)
    (hnodup : (w.tasks.map Prod.fst).Nodup) {before after : List (Nat × Event)} {tag : Nat}
    {backendId : Uuid} {r : Reply (.record backendId false)}
    (hhistory : w.history = before ++ (tag, ⟨.record backendId false, r⟩) :: after) :
    FailedCall (Pool.own tag before) backendId := by
  obtain ⟨task, htask, rfl⟩ : ∃ task ∈ w.tasks, task.1 = tag :=
    List.mem_map.mp (h.mem_tags (tag, ⟨.record backendId false, r⟩) (by simp [hhistory]))
  obtain ⟨p, ⟨purpose, hstart⟩, hfollows⟩ := h.follows hnodup task htask
  rw [hhistory, Pool.own_append, Pool.own_cons_self] at hfollows
  cases purpose with
  | request model =>
    exact (orderly_of_follows (hstart.orderly _) hfollows).split.failed _ rfl
  | admin =>
    have hadmin : Program.wp ⟨AdminOp, fun _ _ => True⟩ p fun _ _ => True :=
      ClosesOld.wp_starts ⟨fun op hop _ => hop, fun _ _ _ _ _ => trivial⟩ hstart
    exact (hfollows.allowed hadmin (fun _ _ => trivial) ⟨.record backendId false, r⟩ (by simp)).elim

end Runs

/-- If a client is only closed when no task can use it any more, then in every run no
client is used after it has been closed, and whenever a failure is recorded, the same
request has performed an operation of a call of that backend before that has raised, and
not because the client had been closed. -/
theorem no_use_after_close (cache : TwoTierCache) (gw : RequestOrchestrator) (table : List Backend)
    {w : Pool Nat Running Op Reply Outcome}
    (hreach : Pool.ReachableUnder (hotReload cache gw table) Drained w)
    (hnodup : (w.tasks.map Prod.fst).Nodup) :
    (w.history.Pairwise fun first later =>
      ∀ client, first.2.1 = .aclose client → ¬ later.2.1.Uses client) ∧
    ∀ before tag backendId r after,
      w.history = before ++ (tag, ⟨.record backendId false, r⟩) :: after →
      ∃ earlier op e later backend client, before = earlier ++ (tag, ⟨op, .error e⟩) :: later ∧
        backend.id = backendId ∧ Offered (Pool.own tag earlier) backend client ∧
        CallOp backend client op ∧ (op.Uses client → ¬ Closed earlier client) := by
  have hpairwise := (released_of_drained hreach).2
  refine ⟨hpairwise, fun before tag backendId r after hhistory => ?_⟩
  obtain ⟨_, op, e, _, backend, client, hown, hid, hoffered, hop⟩ :=
    failedCall_of_record hreach.reachable hnodup hhistory
  obtain ⟨earlier, later, rfl, rfl, -⟩ := Pool.exists_split_of_own hown
  refine ⟨earlier, op, e, later, backend, client, rfl, hid, hoffered, hop, fun huses hclosed => ?_⟩
  obtain ⟨tag', r', hclose⟩ := hclosed
  rw [hhistory, List.append_assoc] at hpairwise
  exact (List.pairwise_append.mp hpairwise).2.2 _ hclose _ List.mem_cons_self client rfl huses

/-! ## A request between two reloads -/

/-- How the gateway answers, with one new client a reload. -/
def answerOnce : Program.Handler Op Reply Running := fun s op =>
  match op with
  | .exactGet model promptHash => (.ok (ExactCache.get s.world.l1 0 model promptHash), s)
  | .candidates model =>
    match s.world.registry.candidates model with
    | some pairs => (.ok pairs, s)
    | none => (.error (.failure "KeyError"), s)
  | .listBackends => (.ok s.world.table, s)
  | .install rows =>
    match s.world.registry.install (fun _ => .ok ⟨s.made⟩) rows with
    | .ok (registry, oldClients) => (.ok oldClients, ⟨{ s.world with registry }, s.made + 1⟩)
    | .error e => (.error e, s)
  | .exactPut .. | .findSimilar .. | .insertEntry _ | .upsert _ => (.error (.failure "not used"), s)
  | op => (failoverAnswer op, s)

theorem answerOnce_handle (cache : TwoTierCache) (gw : RequestOrchestrator) (table : List Backend)
    (s : Running) (op : Op) :
    (hotReload cache gw table).handle s op (answerOnce s op).1 (answerOnce s op).2 := by
  cases op with
  | exactGet => exact ⟨⟨rfl, .inl ⟨0, rfl⟩⟩, le_rfl, trivial⟩
  | candidates model =>
    cases hpairs : s.world.registry.candidates model with
    | some pairs =>
      have hanswer : answerOnce s (.candidates model) = (.ok pairs, s) := by
        simp [answerOnce, hpairs]
      rw [hanswer]
      exact ⟨⟨rfl, .inl ⟨pairs, hpairs, rfl⟩⟩, le_rfl, trivial⟩
    | none =>
      have hanswer : answerOnce s (.candidates model) = (.error (.failure "KeyError"), s) := by
        simp [answerOnce, hpairs]
      rw [hanswer]
      exact ⟨⟨rfl, .inr ⟨_, rfl⟩⟩, le_rfl, trivial⟩
  | listBackends => exact ⟨⟨rfl, .inl ⟨_, .refl _, rfl⟩⟩, le_rfl, trivial⟩
  | install rows =>
    cases hinstall : s.world.registry.install (fun _ => .ok ⟨s.made⟩) rows with
    | error e =>
      have hanswer : answerOnce s (.install rows) = (.error e, s) := by simp [answerOnce, hinstall]
      rw [hanswer]
      exact ⟨⟨fun _ => .ok ⟨s.made⟩, by simp [hinstall]⟩, le_rfl, trivial⟩
    | ok new =>
      have hanswer : answerOnce s (.install rows) =
          (.ok new.2, ⟨{ s.world with registry := new.1 }, s.made + 1⟩) := by
        simp [answerOnce, hinstall]
      rw [hanswer]
      refine ⟨⟨fun _ => .ok ⟨s.made⟩, by simp [hinstall]⟩, Nat.le_succ _, fun item hitem => ?_⟩
      obtain ⟨row, -, hmade⟩ := (BackendRegistry.clients_install hinstall).1 item hitem
      rw [← Except.ok.inj hmade]
      exact ⟨le_rfl, Nat.lt_succ_self _⟩
  | exactPut | insertEntry | upsert => exact ⟨.inr ⟨rfl, _, rfl⟩, le_rfl, trivial⟩
  | findSimilar => exact ⟨⟨rfl, .inr ⟨_, rfl⟩⟩, le_rfl, trivial⟩
  | _ => exact ⟨rfl, le_rfl, trivial⟩

/-- One backend, whose first client raises whenever it is called. -/
def flaky : List Backend := [⟨0, "b", .ollama, "e", "m", 100, true, 0, 0⟩]

/-- A reload, a request and another reload have started. -/
def threeTasks : Pool Nat Running Op Reply Outcome where
  state := ⟨⟨Strings.empty, [], flaky, {}⟩, 0⟩
  history := []
  tasks := [(0, (fun _ => .administered) <$> reload.run),
    (1, Outcome.completed <$> (handleComplete zeroDigest hiRequest).run),
    (2, (fun _ => .administered) <$> reload.run)]

theorem threeTasks_start : ∀ task ∈ threeTasks.tasks,
    (hotReload sampleCache zeroDigest flaky).starts task.1 task.2 := by
  simp only [threeTasks, List.forall_mem_cons]
  exact ⟨⟨_, .reload⟩, ⟨_, .complete hiRequest⟩, ⟨_, .reload⟩, nofun⟩

theorem threeTasks_admin : ∀ task ∈ threeTasks.tasks, task.1 ≠ 1 →
    Program.wp ⟨AdminOp, fun _ _ => True⟩ task.2 fun _ _ => True := by
  have hstart : Starts zeroDigest .admin ((fun _ => .administered) <$> reload.run) := .reload
  have hreload : Program.wp ⟨AdminOp, fun _ _ => True⟩
      ((fun _ => Outcome.administered) <$> reload.run) fun _ _ => True :=
    ClosesOld.wp_starts ⟨fun op hop _ => hop, fun _ _ _ _ _ => trivial⟩ hstart
  simp only [threeTasks, List.forall_mem_cons]
  exact ⟨fun _ => hreload, fun hne => (hne rfl).elim, fun _ => hreload, nofun⟩

def Op.closed : Op → Option Client
  | .aclose client => some client
  | _ => none

theorem Op.closed_eq_some_iff {op : Op} {client : Client} :
    op.closed = some client ↔ op = .aclose client := by
  cases op <;> simp [Op.closed]

instance (op : Op) (client : Client) : Decidable (op.Uses client) := by
  cases op <;> first
    | exact inferInstanceAs (Decidable (_ = _))
    | exact inferInstanceAs (Decidable False)

/-- The request has run between the reloads: its call has failed by itself, and a failure has
been recorded. The second reload has swapped the maps. -/
def beforeClose : Pool Nat Running Op Reply Outcome :=
  threeTasks.schedule answerOnce
    ([0, 0, 0] ++ [1, 1, 1, 1, 1, 1, 1, 1, 1, 1, 1, 1, 1, 1, 1] ++ [2, 2, 2])

theorem beforeClose_reachable :
    Pool.ReachableUnder (hotReload sampleCache zeroDigest flaky) Drained beforeClose := by
  have hquiet : ∀ e ∈ beforeClose.history, e.2.1.closed = none := by
    unfold beforeClose threeTasks handleComplete
    rw [walk_evaluates]
    decide +kernel
  exact .schedule (answerOnce_handle _ _ _) (.starts .initial threeTasks_start) _ fun e he _ client
    hclose => nomatch (hquiet e he).symm.trans (Op.closed_eq_some_iff.mpr hclose)

/-- The request has ended, and reloads use no client. -/
theorem beforeClose_drained (tag : Nat) (op : Op) : Drained beforeClose tag op := by
  have hended : ∀ task ∈ beforeClose.tasks, task.1 = 1 → Pool.isPure task.2 := by
    unfold beforeClose threeTasks handleComplete
    rw [walk_evaluates]
    decide +kernel
  have hadmin : ∀ task ∈ beforeClose.tasks, task.1 ≠ 1 →
      Program.wp ⟨AdminOp, fun _ _ => True⟩ task.2 fun _ _ => True :=
    Pool.forall_schedule (P := fun tag p => tag ≠ 1 →
      Program.wp ⟨AdminOp, fun _ _ => True⟩ p fun _ _ => True)
      (fun _ _ _ r hkept hne => (hkept hne).2 r trivial) threeTasks_admin _
  intro client _ task htask
  by_cases hrequest : task.1 = 1
  · obtain ⟨r, hr⟩ := Pool.isPure_iff.mp (hended task htask hrequest)
    rw [hr]
    trivial
  · exact Program.wp_weaken (hadmin task htask hrequest)
      (fun op hop => AdminOp.not_uses hop client) fun _ _ _ => trivial

/-- The client is closed after the request has ended. -/
theorem no_use_after_close_between :
    let w := beforeClose.turn answerOnce 2
    Closed w.history ⟨0⟩ ∧
    (w.history.Pairwise fun first later =>
      ∀ client, first.2.1 = .aclose client → ¬ later.2.1.Uses client) ∧
    ∀ before tag backendId r after,
      w.history = before ++ (tag, ⟨.record backendId false, r⟩) :: after →
      ∃ earlier op e later backend client, before = earlier ++ (tag, ⟨op, .error e⟩) :: later ∧
        backend.id = backendId ∧ Offered (Pool.own tag earlier) backend client ∧
        CallOp backend client op ∧ (op.Uses client → ¬ Closed earlier client) := by
  intro w
  have hcloses : ∃ e ∈ w.history, e.2.1.closed = some ⟨0⟩ := by
    unfold w beforeClose threeTasks handleComplete
    rw [walk_evaluates]
    decide +kernel
  have hnodup : (w.tasks.map Prod.fst).Nodup := by
    unfold w beforeClose threeTasks handleComplete
    rw [walk_evaluates]
    decide +kernel
  obtain ⟨hpairwise, hfailed⟩ := no_use_after_close sampleCache zeroDigest flaky
    (beforeClose_reachable.turn (answerOnce_handle _ _ _) 2 fun tag op _ _ =>
      beforeClose_drained tag op) hnodup
  obtain ⟨⟨tag, op, r⟩, hclose, hclosed⟩ := hcloses
  obtain rfl := Op.closed_eq_some_iff.mp hclosed
  exact ⟨⟨tag, r, hclose⟩, hpairwise, hfailed⟩

/-- The second reload closes the client after the request has entered its semaphore. -/
theorem closed_client_called : ∃ w, Pool.Reachable (hotReload sampleCache zeroDigest flaky) w ∧
    (w.tasks.map Prod.fst).Nodup ∧
    ¬ w.history.Pairwise fun first later =>
      ∀ client, first.2.1 = .aclose client → ¬ later.2.1.Uses client := by
  refine ⟨threeTasks.schedule answerOnce [0, 0, 0, 1, 1, 1, 1, 1, 1, 1, 1, 2, 2, 2, 2, 1],
    ?_, ?_, ?_⟩
  · exact .schedule (answerOnce_handle _ _ _) (.starts .initial threeTasks_start) _
  · unfold threeTasks handleComplete
    rw [walk_evaluates]
    decide +kernel
  · simp only [← Op.closed_eq_some_iff]
    unfold threeTasks handleComplete
    rw [walk_evaluates]
    decide +kernel

end InferenceGateway.Orchestrator
