import InferenceGateway.Library.Schedule
import InferenceGateway.Orchestrator.Traces
import InferenceGateway.Orchestrator.World

/-!
# What a request has done before

A client is only used after the registry has offered it, a call is only opened right after
its breaker has let the request through and its semaphore has been entered, and a failure
is only recorded after an operation of the call has raised.
-/
namespace InferenceGateway.Orchestrator
open Library Library.Action Persistence

variable {α : Type}

/-- Calling the client, or reading from a stream of it. -/
def Op.Uses (client : Client) : Op → Prop
  | .complete c _ _ | .stream c _ _ | .anext c => c = client
  | _ => False

/-- The registry has offered the client for the backend. -/
def Offered (past : List Event) (backend : Backend) (client : Client) : Prop :=
  ∃ model pairs, ⟨.candidates model, .ok pairs⟩ ∈ past ∧ (backend, client) ∈ pairs

/-- An operation of a call of the backend has raised. -/
def FailedCall (past : List Event) (backendId : Uuid) : Prop :=
  ∃ earlier op e later backend client, past = earlier ++ ⟨op, .error e⟩ :: later ∧
    backend.id = backendId ∧ Offered earlier backend client ∧ CallOp backend client op

/-- A request is in order with an operation after this past. -/
structure Orderly (past : List Event) (ev : Event) : Prop where
  request : ¬ AdminOp ev.1
  offered : ∀ client, ev.1.Uses client → ∃ backend, Offered past backend client
  entered : ∀ client, Opens client ev.1 → ∃ earlier backend,
    past = earlier ++ [⟨.allow backend.id, .ok true⟩, ⟨.acquire backend.id, .ok ()⟩] ∧
      Offered earlier backend client
  failed : ∀ backendId, ev.1 = .record backendId false → FailedCall past backendId

/-- Always in order. -/
def Unconditional : Op → Prop
  | .complete .. | .stream .. | .anext _ => False
  | .upsert _ | .listBackends | .closeSession | .install _ | .aclose _ => False
  | .record _ ok => ok = true
  | _ => True

theorem Orderly.of_unconditional {ev : Event} (h : Unconditional ev.1) (past : List Event) :
    Orderly past ev := by
  obtain ⟨op, r⟩ := ev
  cases op with
  | record backendId ok =>
    obtain rfl : ok = true := h
    exact ⟨fun h => h, nofun, nofun, nofun⟩
  | _ => first | exact h.elim | exact ⟨fun h => h, nofun, nofun, nofun⟩

theorem Offered.later {past later : List Event} {backend : Backend} {client : Client}
    (h : Offered past backend client) : Offered (past ++ later) backend client := by
  obtain ⟨model, pairs, hmem, hpair⟩ := h
  exact ⟨model, pairs, List.mem_append_left _ hmem, hpair⟩

section Calls
variable {req : ChatRequest} {streaming : Bool} {backend : Backend} {client : Client}
  {past trace : List Event}

/-- Opening the call that has been let through. -/
theorem Orderly.of_opens {ev : Event} (h : Opens client ev.1)
    (hoffered : Offered past backend client) :
    Orderly (past ++ [⟨.allow backend.id, .ok true⟩] ++ [⟨.acquire backend.id, .ok ()⟩]) ev := by
  have huses : ∀ c, ev.1.Uses c → c = client := by
    intro c hc
    obtain ⟨op, r⟩ := ev
    cases op <;> first | exact hc.symm.trans h | exact h.elim
  have hopens : ∀ c, Opens c ev.1 → c = client := by
    intro c hc
    obtain ⟨op, r⟩ := ev
    cases op <;> first | exact hc.symm.trans h | exact h.elim
  refine ⟨fun hadmin => ?_, fun c hc => ?_, fun c hc => ?_, fun backendId heq => ?_⟩
  · obtain ⟨op, r⟩ := ev
    cases op <;> first | exact h.elim | exact hadmin.elim
  · obtain rfl := huses c hc
    exact ⟨backend, hoffered.later.later⟩
  · obtain rfl := hopens c hc
    exact ⟨past, backend, List.append_assoc .., hoffered⟩
  · rw [heq] at h
    exact h.elim

theorem Orderly.of_continues {ev : Event} (h : ContinueOp client ev.1)
    (hoffered : Offered past backend client) : Orderly past ev := by
  obtain ⟨op, r⟩ := ev
  cases op with
  | anext c =>
    refine ⟨fun h => h, fun c' hc => ?_, nofun, nofun⟩
    obtain rfl : c = client := h
    obtain rfl : c = c' := hc
    exact ⟨backend, hoffered⟩
  | emit event => exact .of_unconditional (by trivial) past
  | _ => exact h.elim

theorem CallTrace.orderly {r : Except Raised Unit} (h : CallTrace backend client trace r)
    (hoffered : Offered past backend client) :
    Justified Orderly (past ++ [⟨.allow backend.id, .ok true⟩]) trace := by
  obtain ⟨e, rfl⟩ | ⟨opening, rest, rfl, hopens, hrest⟩ := h.enters
  · exact ⟨.of_unconditional (by trivial) _, trivial⟩
  · refine ⟨.of_unconditional (by trivial) _, .of_opens hopens hoffered, ?_⟩
    refine justified_of_forall fun ev hev later => ?_
    obtain hcontinue | hleft := hrest ev hev
    · have hlater : Offered (past ++ ([⟨.allow backend.id, .ok true⟩] ++
          ([⟨.acquire backend.id, .ok ()⟩] ++ ([opening] ++ later)))) backend client :=
        hoffered.later
      exact .of_continues hcontinue (by simpa using hlater)
    · refine .of_unconditional ?_ _
      rw [hleft]
      trivial

/-- After a call that has raised a failure may be recorded. -/
theorem CallTrace.failedCall {e : Raised} (h : CallTrace backend client trace (.error e))
    (hoffered : Offered past backend client) (later : List Event) :
    FailedCall (past ++ trace ++ later) backend.id := by
  obtain ⟨op, hop⟩ := h.raised
  obtain ⟨before, after, rfl⟩ := List.append_of_mem hop
  refine ⟨past ++ before, op, e, after ++ later, backend, client, by simp, rfl, hoffered.later, ?_⟩
  exact h.ops _ hop

theorem orderly_of_unconditional (h : ∀ ev ∈ trace, Unconditional ev.1) :
    Justified Orderly past trace :=
  justified_of_forall fun ev hev _ => .of_unconditional (h ev hev) _

section Operations
variable {op : Op}

theorem LookupOp.unconditional (h : LookupOp req op) : Unconditional op := by
  cases op <;> first | exact h.elim | trivial

theorem SettleOp.unconditional (h : SettleOp req backend op) : Unconditional op := by
  cases op <;> first | exact h.elim | exact h.2 | trivial

theorem HitOp.unconditional (h : HitOp op) : Unconditional op := by
  cases op <;> first | exact h.elim | trivial

theorem ClockOp.unconditional (h : ClockOp op) : Unconditional op := by
  cases op <;> first | exact h.elim | trivial

theorem TailOp.unconditional (h : TailOp streaming op) : Unconditional op := by
  cases op <;> first | exact h.elim | trivial

theorem FailoverMetric.unconditional (h : FailoverMetric op) : Unconditional op := by
  cases op <;> first | exact h.elim | trivial

end Operations

theorem Logs.orderly {book : Op → Prop} {status : Int}
    {tail : List Event → Except Raised α → Prop} {r : Except Raised α}
    (h : Logs book tail status trace r) (hbook : ∀ op, book op → Unconditional op)
    (htail : ∀ trace r, tail trace r → ∀ ev ∈ trace, Unconditional ev.1) :
    Justified Orderly past trace :=
  orderly_of_unconditional (h.forall_mem hbook (fun _ => trivial) htail)

theorem BodyTrace.orderly {r : Except Raised (Pass α)}
    (h : BodyTrace req streaming backend client trace r) (hoffered : Offered past backend client) :
    Justified Orderly (past ++ [⟨.allow backend.id, .ok true⟩]) trace := by
  cases h with
  | cancelled hcall _ => exact hcall.orderly hoffered
  | @failed call after e r hcall _ hops _ =>
    refine justified_append.mpr ⟨hcall.orderly hoffered, justified_of_forall fun ev hev later => ?_⟩
    have hopened : Offered (past ++ [⟨.allow backend.id, .ok true⟩]) backend client :=
      hoffered.later
    have hfailed := hcall.failedCall hopened later
    have hop := hops ev hev
    obtain ⟨op, r⟩ := ev
    cases op with
    | record backendId ok =>
      obtain ⟨rfl, rfl⟩ := hop
      refine ⟨fun h => h, nofun, nofun, fun _ heq => ?_⟩
      obtain ⟨rfl, -⟩ := Op.record.inj heq
      exact hfailed
    | incr => exact .of_unconditional (by trivial) _
    | _ => exact hop.elim
  | @answered call after _ hcall hlogs _ =>
    refine justified_append.mpr ⟨hcall.orderly hoffered, hlogs.orderly ?_ ?_⟩
    · exact fun op hop => hop.unconditional
    · exact fun _ _ htail ev hev => (htail.ops ev hev).unconditional

/-- The failover loop over offered candidates. -/
theorem WalkTrace.orderly {rem : List (Backend × Client)} {err : Option Raised}
    {r : Except Raised α} (h : WalkTrace req streaming rem err trace r)
    (hoffered : ∀ pair ∈ rem, Offered past pair.1 pair.2) : Justified Orderly past trace := by
  induction h generalizing past with
  | exhausted hlogs =>
    refine hlogs.orderly ?_ ?_
    · exact fun op hop => hop.unconditional
    · exact fun _ _ htail ev hev => (htail.ops ev hev).unconditional
  | unselected => exact ⟨.of_unconditional (by trivial) _, trivial⟩
  | stopped => exact ⟨.of_unconditional (by trivial) _, trivial⟩
  | unasked => exact ⟨.of_unconditional (by trivial) _, .of_unconditional (by trivial) _, trivial⟩
  | rejected _ _ ih =>
    refine ⟨.of_unconditional (by trivial) _, .of_unconditional (by trivial) _,
      ih fun pair hpair => ?_⟩
    exact (hoffered pair (List.mem_filter.mp hpair).1).later.later
  | raised hpair hbody =>
    exact ⟨.of_unconditional (by trivial) _, .of_unconditional (by trivial) _,
      hbody.orderly (hoffered _ (List.mem_of_find?_eq_some hpair)).later⟩
  | done hpair hbody =>
    exact ⟨.of_unconditional (by trivial) _, .of_unconditional (by trivial) _,
      hbody.orderly (hoffered _ (List.mem_of_find?_eq_some hpair)).later⟩
  | next hpair hbody _ ih =>
    refine ⟨.of_unconditional (by trivial) _, .of_unconditional (by trivial) _, justified_append.mpr
      ⟨hbody.orderly (hoffered _ (List.mem_of_find?_eq_some hpair)).later, ih fun pair hpair => ?_⟩⟩
    exact (hoffered pair (List.mem_filter.mp hpair).1).later.later.later

theorem Lead.orderly (h : Lead req trace) : Justified Orderly [] trace := by
  obtain ⟨start, reservation, look, rfl, hops, -⟩ := h
  refine ⟨.of_unconditional (by trivial) _, .of_unconditional (by trivial) _, ?_⟩
  exact orderly_of_unconditional fun ev hev => (hops ev hev).unconditional

/-- Every request is in order with each of its operations. -/
theorem RequestTrace.orderly {r : Except Raised α} (h : RequestTrace req streaming trace r) :
    Justified Orderly [] trace := by
  cases h with
  | unread => exact ⟨.of_unconditional (by trivial) _, trivial⟩
  | unreserved =>
    exact ⟨.of_unconditional (by trivial) _, .of_unconditional (by trivial) _, trivial⟩
  | denied => exact ⟨.of_unconditional (by trivial) _, .of_unconditional (by trivial) _, trivial⟩
  | interrupted hlead hops _ =>
    refine justified_append.mpr ⟨hlead.orderly, orderly_of_unconditional fun ev hev => ?_⟩
    obtain hlook | hcandidates := hops ev hev
    · exact hlook.unconditional
    · rw [hcandidates]
      trivial
  | hit hlead hlogs =>
    refine justified_append.mpr ⟨hlead.orderly, hlogs.orderly ?_ ?_⟩
    · exact fun op hop => hop.unconditional
    · exact fun _ _ htail ev hev => (htail.ops ev hev).unconditional
  | unavailable hlead =>
    exact justified_append.mpr ⟨hlead.orderly, .of_unconditional (by trivial) _, trivial⟩
  | @walked lead trace remaining r hlead _ hwalk =>
    refine justified_append.mpr ⟨hlead.orderly, .of_unconditional (by trivial) _, hwalk.orderly ?_⟩
    exact fun pair hpair => ⟨req.model, remaining, by simp, hpair⟩

end Calls

/-! ## Admin requests as tasks -/

/-- A contract under which a reload may close what its swap has returned. -/
structure ClosesOld (C : Contract) : Prop where
  allowed : ∀ op, AdminOp op → (∀ client, op ≠ .aclose client) → C.allowed op
  closes : ∀ rows oldClients, C.promised (.install rows) (.ok oldClients) →
    ∀ client ∈ oldClients, C.allowed (.aclose client)

section Admin
variable {C : Contract}

theorem wp_acloseAll {clients : List Client} (h : ∀ client ∈ clients, C.allowed (.aclose client)) :
    wp C (acloseAll clients) fun _ _ => True := by
  induction clients with
  | nil => trivial
  | cons client clients ih =>
    rw [List.forall_mem_cons] at h
    exact wp_call_bind h.1 (fun _ _ => trivial) fun _ _ => ih h.2

theorem ClosesOld.wp_reload (h : ClosesOld C) : wp C reload fun _ _ => True := by
  refine wp_call_bind (h.allowed _ trivial nofun) (fun _ _ => trivial) fun rows _ => ?_
  refine wp_call_bind (h.allowed _ trivial nofun) (fun _ _ => trivial) fun _ _ => ?_
  refine wp_call_bind (h.allowed _ trivial nofun) (fun _ _ => trivial) fun oldClients hold => ?_
  exact wp_acloseAll (h.closes rows oldClients hold)

theorem ClosesOld.wp_upsertBackend (h : ClosesOld C) (body : BackendUpsert) :
    wp C (upsertBackend body) fun _ _ => True := by
  refine wp_call_bind (h.allowed _ trivial nofun) (fun _ _ => trivial) fun row _ => ?_
  refine (wp_bind _).mpr (wp_mono h.wp_reload fun _ r _ => ?_)
  cases r <;> trivial

theorem ClosesOld.wp_starts (h : ClosesOld C) {gw : RequestOrchestrator}
    {p : Program Op Reply Outcome} (hstart : Starts gw .admin p) :
    Program.wp C p fun _ _ => True := by
  cases hstart with
  | upsert body => exact (Program.wp_map _ _).mpr (h.wp_upsertBackend body)
  | reload => exact (Program.wp_map _ _).mpr h.wp_reload

end Admin

/-! ## Requests as tasks -/

/-- The requests among the tasks that may start. -/
theorem Starts.orderly {gw : RequestOrchestrator} {model : String} {p : Program Op Reply Outcome}
    (h : Starts gw (.request model) p) (promised : (op : Op) → Reply op → Prop) :
    Program.wp (.expecting promised) p fun trace _ => Justified Orderly [] trace := by
  cases h with
  | complete req =>
    exact (Program.wp_map _ _).mpr (wp_mono (handleComplete_trace (.of_allowed fun _ => trivial))
      fun _ _ htrace => htrace.orderly)
  | stream req =>
    exact (Program.wp_map _ _).mpr (wp_mono (handleStream_trace (.of_allowed fun _ => trivial))
      fun _ _ htrace => htrace.orderly)

/-- Whatever a request has done so far, it has been in order. -/
theorem orderly_of_follows {p q : Program Op Reply Outcome} {trace : List Event}
    (hp : Program.wp (.expecting fun _ _ => True) p fun trace _ => Justified Orderly [] trace)
    (h : p.Follows trace q) : Justified Orderly [] trace := by
  obtain ⟨rest, r, hall⟩ :=
    h.exists_end hp (fun _ _ => trivial) fun op => ⟨.error .cancelled, trivial⟩
  exact (justified_append.mp hall).1

end InferenceGateway.Orchestrator
