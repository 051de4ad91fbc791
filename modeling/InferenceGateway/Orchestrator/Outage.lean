import InferenceGateway.Orchestrator.SkippedBackends

/-!
# When a request is turned away

A request logs status 503 when its failover loop runs out of candidates. By then it has given up
each of them, for a call of its own that has raised or for a breaker that has refused it, and
breakers of all replicas only refuse after calls that have failed. So no outage is logged without
failures of every backend that serves the model.
-/
namespace InferenceGateway.Orchestrator
open Library Library.Action Redis Resilience Resilience.Breaker

variable {α : Type}

/-- The breaker of the backend has refused it, or a call of it has raised. -/
def GivenUp (past : List Event) (backendId : Uuid) : Prop :=
  ⟨.allow backendId, .ok false⟩ ∈ past ∨ FailedCall past backendId

/-- The request was offered candidates and has given up all of them. -/
def AllGivenUp (past : List Event) : Prop :=
  ∃ model pairs, ⟨.candidates model, .ok pairs⟩ ∈ past ∧ pairs ≠ [] ∧
    ∀ pair ∈ pairs, GivenUp past pair.1.id

/-- A row with status 503 is deserved. -/
def Deserved (past : List Event) (ev : Event) : Prop :=
  ∀ row, ev.1 = .insertLog row → row.status = 503 → AllGivenUp past

section Past
variable {past trace : List Event} {ev : Event} {backendId : Uuid}

theorem FailedCall.later (h : FailedCall past backendId) (later : List Event) :
    FailedCall (past ++ later) backendId := by
  obtain ⟨earlier, op, e, between, backend, client, rfl, hid, hoffered, hop⟩ := h
  exact ⟨earlier, op, e, between ++ later, backend, client, by simp, hid, hoffered, hop⟩

theorem GivenUp.later (h : GivenUp past backendId) (later : List Event) :
    GivenUp (past ++ later) backendId :=
  h.imp (fun hrefused => List.mem_append_left _ hrefused) fun hfailed => hfailed.later later

theorem AllGivenUp.later (h : AllGivenUp past) (later : List Event) :
    AllGivenUp (past ++ later) := by
  obtain ⟨model, pairs, hmem, hne, hall⟩ := h
  exact ⟨model, pairs, List.mem_append_left _ hmem, hne, fun pair hp => (hall pair hp).later later⟩

theorem Deserved.of_not_row (h : ∀ row, ev.1 ≠ .insertLog row) (past : List Event) :
    Deserved past ev :=
  fun row heq => absurd heq (h row)

/-- Where only answered requests are logged. -/
theorem deserved_of_answered (h : ∀ ev ∈ trace, ∀ row, ev.1 = .insertLog row → row.status = 200) :
    Justified Deserved past trace := by
  refine justified_of_forall fun ev hev later row heq hstatus => ?_
  rw [h ev hev row heq] at hstatus
  exact absurd hstatus (by decide)

theorem deserved_of_not_row (h : ∀ ev ∈ trace, ∀ row, ev.1 ≠ .insertLog row) :
    Justified Deserved past trace :=
  deserved_of_answered fun ev hev row heq => absurd heq (h ev hev row)

/-- The rows of one log. -/
theorem Logs.status_eq {book : Op → Prop} {tail : List Event → Except Raised α → Prop}
    {status : Int} {r : Except Raised α} (h : Logs book tail status trace r)
    (hbook : ∀ row, ¬ book (.insertLog row))
    (htail : ∀ trace r, tail trace r → ∀ ev ∈ trace, ∀ row, ev.1 ≠ .insertLog row) :
    ∀ ev ∈ trace, ∀ row, ev.1 = .insertLog row → row.status = status := by
  have hquiet : ∀ ev : Event, book ev.1 → ∀ row, ev.1 = .insertLog row → row.status = status :=
    fun ev hop row heq => absurd (heq ▸ hop) (hbook row)
  cases h with
  | early hops _ => exact fun ev hev => hquiet ev (hops ev hev)
  | refused hops _ hstatus =>
    refine List.forall_mem_append.mpr ⟨fun ev hev => hquiet ev (hops ev hev), ?_⟩
    exact List.forall_mem_singleton.mpr fun row heq => Op.insertLog.inj heq ▸ hstatus
  | logged hops _ hstatus hafter =>
    refine List.forall_mem_append.mpr ⟨fun ev hev => hquiet ev (hops ev hev), ?_⟩
    refine List.forall_mem_cons.mpr ⟨fun row heq => Op.insertLog.inj heq ▸ hstatus, ?_⟩
    exact fun ev hev row heq => absurd heq (htail _ _ hafter ev hev row)

end Past

/-! ## The parts of a request -/

section Parts
variable {req : ChatRequest} {streaming : Bool} {backend : Backend} {client : Client}
  {past trace : List Event}

theorem ne_row_of {P : Op → Prop} (h : ∀ row, ¬ P (.insertLog row)) {op : Op} (hop : P op) :
    ∀ row, op ≠ .insertLog row :=
  fun row heq => h row (heq ▸ hop)

theorem Tail.not_row {r : Except Raised α} (h : Tail streaming trace r) :
    ∀ ev ∈ trace, ∀ row, ev.1 ≠ .insertLog row :=
  fun ev hev => ne_row_of (fun _ => id) (h.ops ev hev)

theorem CallTrace.not_row {r : Except Raised Unit} (h : CallTrace backend client trace r) :
    ∀ ev ∈ trace, ∀ row, ev.1 ≠ .insertLog row :=
  fun ev hev => ne_row_of (fun _ => id) (h.ops ev hev)

theorem BodyTrace.answered_rows {r : Except Raised (Pass α)}
    (h : BodyTrace req streaming backend client trace r) :
    ∀ ev ∈ trace, ∀ row, ev.1 = .insertLog row → row.status = 200 := by
  have hcalls : ∀ {call : List Event} {r : Except Raised Unit},
      CallTrace backend client call r → ∀ ev ∈ call, ∀ row, ev.1 = .insertLog row →
        row.status = 200 := fun hcall ev hev row heq => absurd heq (hcall.not_row ev hev row)
  cases h with
  | cancelled hcall _ => exact hcalls hcall
  | failed hcall _ hops _ =>
    refine List.forall_mem_append.mpr ⟨hcalls hcall, fun ev hev row heq => ?_⟩
    exact absurd heq (ne_row_of (fun _ => id) (hops ev hev) row)
  | answered hcall hlogs _ =>
    refine List.forall_mem_append.mpr ⟨hcalls hcall, ?_⟩
    exact hlogs.status_eq (fun _ => id) fun _ _ htail => htail.not_row

/-- A candidate after which the loop goes on has failed. -/
theorem BodyTrace.failedCall {err : Option Raised}
    (h : BodyTrace (α := α) req streaming backend client trace (.ok (.next err)))
    (hoffered : Offered past backend client) : FailedCall (past ++ trace) backend.id := by
  generalize hr : (Except.ok (.next err) : Except Raised (Pass α)) = r at h
  cases h with
  | cancelled => exact absurd hr (by simp)
  | failed hcall _ _ _ =>
    rw [← List.append_assoc]
    exact hcall.failedCall hoffered _
  | answered _ _ hdone =>
    obtain ⟨a, ha⟩ := hdone (.next err) hr.symm
    exact absurd ha (by simp)

/-- The candidates that are left when one of them has been given up. -/
theorem left_or_givenUp {pairs rem : List (Backend × Client)} {chosen : Uuid}
    (hpair : pairOf chosen rem = some (backend, client))
    (hleft : ∀ pair ∈ pairs, pair ∈ rem ∨ GivenUp past pair.1.id) {later : List Event}
    (hgiven : GivenUp (past ++ later) backend.id) :
    ∀ pair ∈ pairs, pair ∈ without chosen rem ∨ GivenUp (past ++ later) pair.1.id := by
  intro pair hp
  obtain ⟨-, hid⟩ := pairOf_mem hpair
  obtain hrem | hbefore := hleft pair hp
  · by_cases heq : pair.1.id = chosen
    · right
      rw [heq, ← hid]
      exact hgiven
    · exact .inl (List.mem_filter.mpr ⟨hrem, by simpa using heq⟩)
  · exact .inr (hbefore.later later)

/-- The failover loop: every candidate is left or has been given up. -/
theorem WalkTrace.deserved {rem : List (Backend × Client)} {err : Option Raised}
    {r : Except Raised α} (h : WalkTrace req streaming rem err trace r)
    {pairs : List (Backend × Client)}
    (hcandidates : ⟨.candidates req.model, .ok pairs⟩ ∈ past) (hne : pairs ≠ [])
    (hrem : rem ⊆ pairs) (hleft : ∀ pair ∈ pairs, pair ∈ rem ∨ GivenUp past pair.1.id) :
    Justified Deserved past trace := by
  have hselect : ∀ (rem : List (Backend × Client)) (r : Reply (.select (rem.map Prod.fst)
      (features req))) (past : List Event), Deserved past ⟨.select _ _, r⟩ :=
    fun _ _ => Deserved.of_not_row fun _ => by simp
  have hallow : ∀ (id : Uuid) (r : Reply (.allow id)) (past : List Event),
      Deserved past ⟨.allow id, r⟩ := fun _ _ => Deserved.of_not_row fun _ => by simp
  induction h generalizing past with
  | exhausted _ =>
    have hall : AllGivenUp past :=
      ⟨req.model, pairs, hcandidates, hne, fun pair hp => (hleft pair hp).resolve_left (by simp)⟩
    exact justified_of_forall fun _ _ later _ _ _ => hall.later later
  | unselected => exact ⟨hselect _ _ _, trivial⟩
  | stopped => exact ⟨hselect _ _ _, trivial⟩
  | unasked => exact ⟨hselect _ _ _, hallow _ _ _, trivial⟩
  | @rejected rem err chosen backend client trace r hpair _ ih =>
    refine ⟨hselect _ _ _, hallow _ _ _, ?_⟩
    rw [List.append_assoc]
    refine ih (List.mem_append_left _ hcandidates)
      (fun pair hp => hrem (List.mem_filter.mp hp).1) (left_or_givenUp hpair hleft ?_)
    exact .inl (by simp)
  | raised _ hbody =>
    exact ⟨hselect _ _ _, hallow _ _ _, deserved_of_answered hbody.answered_rows⟩
  | done _ hbody =>
    exact ⟨hselect _ _ _, hallow _ _ _, deserved_of_answered hbody.answered_rows⟩
  | @next rem err err' chosen backend client trace trace' r hpair hbody _ ih =>
    refine ⟨hselect _ _ _, hallow _ _ _, justified_append.mpr
      ⟨deserved_of_answered hbody.answered_rows, ?_⟩⟩
    have hoffered : Offered past backend client :=
      ⟨req.model, pairs, hcandidates, hrem (List.mem_of_find?_eq_some hpair)⟩
    rw [List.append_assoc, List.append_assoc]
    refine ih (List.mem_append_left _ hcandidates)
      (fun pair hp => hrem (List.mem_filter.mp hp).1) (left_or_givenUp hpair hleft ?_)
    rw [← List.append_assoc, ← List.append_assoc]
    exact .inr (hbody.failedCall hoffered.later.later)

theorem LookupOp.not_row {op : Op} (h : LookupOp req op) : ∀ row, op ≠ .insertLog row :=
  ne_row_of (fun _ => id) h

theorem Lead.not_row (h : Lead req trace) : ∀ ev ∈ trace, ∀ row, ev.1 ≠ .insertLog row := by
  obtain ⟨start, reservation, look, rfl, hops, -⟩ := h
  refine List.forall_mem_cons.mpr ⟨fun _ => by simp, ?_⟩
  refine List.forall_mem_cons.mpr ⟨fun _ => by simp, ?_⟩
  exact fun ev hev => (hops ev hev).not_row

/-- Every request deserves the 503 that it logs. -/
theorem RequestTrace.deserved {r : Except Raised α} (h : RequestTrace req streaming trace r) :
    Justified Deserved [] trace := by
  cases h with
  | unread => exact deserved_of_not_row (by simp)
  | unreserved => exact deserved_of_not_row (by simp)
  | denied => exact deserved_of_not_row (by simp)
  | interrupted hlead hops _ =>
    refine deserved_of_not_row (List.forall_mem_append.mpr ⟨hlead.not_row, fun ev hev => ?_⟩)
    obtain hlook | hcandidates := hops ev hev
    · exact hlook.not_row
    · exact fun row heq => absurd (hcandidates.symm.trans heq) (by simp)
  | hit hlead hlogs =>
    refine justified_append.mpr ⟨deserved_of_not_row hlead.not_row, deserved_of_answered ?_⟩
    exact hlogs.status_eq (fun _ => id) fun _ _ htail => htail.not_row
  | unavailable hlead =>
    refine justified_append.mpr ⟨deserved_of_not_row hlead.not_row, ?_⟩
    exact deserved_of_not_row (by simp)
  | walked hlead hne hwalk =>
    refine justified_append.mpr ⟨deserved_of_not_row hlead.not_row, ?_⟩
    refine ⟨.of_not_row (fun _ => by simp) _, hwalk.deserved (by simp) hne ?_ ?_⟩
    · exact List.Subset.refl _
    · exact fun pair hp => .inl hp

end Parts

/-! ## Requests in any number -/

section Runs
variable {replicas : Replicas} {answers : (op : Op) → Reply op → Prop} {gw : RequestOrchestrator}
  {w : Pool Nat SharedStores Op Reply Outcome} {before after : List (Nat × Event)} {tag : Nat}

theorem wp_deserved {p : Program Op Reply Outcome} {req : ChatRequest}
    (hp : p = Outcome.completed <$> (handleComplete gw req).run ∨
      p = Outcome.streamed <$> (handleStream gw req).run) :
    Program.wp (.expecting fun _ _ => True) p fun trace _ => Justified Deserved [] trace := by
  obtain rfl | rfl := hp
  · exact (Program.wp_map _ _).mpr (wp_mono (handleComplete_trace (.of_allowed fun _ => trivial))
      fun _ _ htrace => htrace.deserved)
  · exact (Program.wp_map _ _).mpr (wp_mono (handleStream_trace (.of_allowed fun _ => trivial))
      fun _ _ htrace => htrace.deserved)

/-- The 503 of a task is deserved. -/
theorem allGivenUp_of_row (h : Pool.Reachable (sharing replicas answers gw) w)
    (hnodup : (w.tasks.map Prod.fst).Nodup) {row : RequestLog} {r : Reply (.insertLog row)}
    (hhistory : w.history = before ++ (tag, ⟨.insertLog row, r⟩) :: after)
    (hstatus : row.status = 503) : AllGivenUp (Pool.own tag before) := by
  obtain ⟨task, htask, rfl⟩ : ∃ task ∈ w.tasks, task.1 = tag :=
    List.mem_map.mp (h.mem_tags (tag, ⟨.insertLog row, r⟩) (by simp [hhistory]))
  obtain ⟨p, ⟨req, -, hp⟩, hfollows⟩ := h.follows hnodup task htask
  have hjustified := hfollows.justified (wp_deserved hp) (fun _ _ => trivial)
    fun op => ⟨.error .cancelled, trivial⟩
  rw [hhistory, Pool.own_append, Pool.own_cons_self] at hjustified
  exact hjustified.split row rfl hstatus

/-- In every interleaving of requests of any number of replicas, whenever a request logs status
503, it has been offered candidates and has given up each of them: an operation of a call of its
own has raised, or the breaker has refused it, and then as many failures as the threshold had been
reported of this backend since its last acknowledged success, each after a call that has raised. -/
theorem outage_deserved (replicas : Replicas) (answers : (op : Op) → Reply op → Prop)
    (gw : RequestOrchestrator) {w : Pool Nat SharedStores Op Reply Outcome}
    (hreach : Pool.Reachable (sharing replicas answers gw) w)
    (hnodup : (w.tasks.map Prod.fst).Nodup) {before after : List (Nat × Event)} {tag : Nat}
    {row : RequestLog} {r : Reply (.insertLog row)}
    (hhistory : w.history = before ++ (tag, ⟨.insertLog row, r⟩) :: after)
    (hstatus : row.status = 503) :
    ∃ model pairs, (tag, ⟨.candidates model, .ok pairs⟩) ∈ before ∧ pairs ≠ [] ∧
      ∀ pair ∈ pairs, FailedCall (Pool.own tag before) pair.1.id ∨
        ∃ earlier later, before = earlier ++ (tag, ⟨.allow pair.1.id, .ok false⟩) :: later ∧
          Unhealthy replicas.settings.breaker.failureThreshold pair.1.id earlier := by
  obtain ⟨model, pairs, hoffered, hne, hall⟩ := allGivenUp_of_row hreach hnodup hhistory hstatus
  refine ⟨model, pairs, Pool.mem_own.mp hoffered, hne, fun pair hp => ?_⟩
  obtain hrefused | hfailed := hall pair hp
  · obtain ⟨earlier, later, rfl⟩ := List.append_of_mem (Pool.mem_own.mp hrefused)
    refine .inr ⟨earlier, later, rfl, ?_⟩
    rw [List.append_assoc, List.cons_append] at hhistory
    exact unhealthy_of_refused hreach hnodup hhistory
  · exact .inl hfailed

end Runs

/-- The row says that nobody has answered. -/
def isOutage : Event → Bool
  | ⟨.insertLog row, _⟩ => row.status = 503
  | _ => false

theorem exists_of_isOutage {ev : Event} (h : isOutage ev = true) :
    ∃ row r, ev = ⟨.insertLog row, r⟩ ∧ row.status = 503 := by
  unfold isOutage at h
  split at h
  · exact ⟨_, _, rfl, of_decide_eq_true h⟩
  · exact absurd h Bool.false_ne_true

/-- The second of two equal requests: both breakers refuse it, for what the first one reported. -/
theorem outage_deserved_second :
    let w := (sameRequest [0, 1]).schedule (answerStores sampleReplicas outageAnswer)
      (List.replicate 22 0 ++ List.replicate 12 1)
    ∃ before row r after, w.history = before ++ (1, ⟨.insertLog row, r⟩) :: after ∧
      row.status = 503 ∧ ∃ model pairs, (1, ⟨.candidates model, .ok pairs⟩) ∈ before ∧
        pairs ≠ [] ∧ ∀ pair ∈ pairs, FailedCall (Pool.own 1 before) pair.1.id ∨
          ∃ earlier later, before = earlier ++ (1, ⟨.allow pair.1.id, .ok false⟩) :: later ∧
            Unhealthy 1 pair.1.id earlier := by
  intro w
  have hlogged : w.history.any (fun e => e.1 = 1 && isOutage e.2) = true := by
    unfold w sameRequest handleComplete
    rw [walk_evaluates]
    decide +kernel
  obtain ⟨⟨tag, ev⟩, hmem, hev⟩ := List.any_eq_true.mp hlogged
  obtain ⟨rfl, hev⟩ : tag = 1 ∧ isOutage ev = true := by simpa using hev
  obtain ⟨row, r, rfl, hstatus⟩ := exists_of_isOutage hev
  obtain ⟨before, after, hhistory⟩ := List.append_of_mem hmem
  have hreach : Pool.Reachable (sharing sampleReplicas (fun _ _ => True) zeroDigest) w :=
    sameRequest_reachable (fun _ => trivial) _ _
  have hnodup : (w.tasks.map Prod.fst).Nodup := by
    rw [Pool.map_fst_schedule]
    decide
  exact ⟨before, row, r, after, hhistory, hstatus,
    outage_deserved sampleReplicas _ zeroDigest hreach hnodup hhistory hstatus⟩

end InferenceGateway.Orchestrator
