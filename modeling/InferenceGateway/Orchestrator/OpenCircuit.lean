import InferenceGateway.Orchestrator.CallOrder
import InferenceGateway.Orchestrator.Evaluation
import InferenceGateway.Orchestrator.Provenance
import InferenceGateway.Resilience.BreakerMachine

/-!
# Calls on an open circuit

A request asks the breaker of a backend first and then waits for the semaphore of that
backend, for as long as other requests keep it. The breaker it calls under is the one it
has asked, as long as no failure of another request opens it in between.
-/
namespace InferenceGateway.Orchestrator
open Library Library.Action Resilience.Breaker

/-! ## Breakers and semaphores -/

/-- The breakers in Redis, and how many slots of each semaphore are taken. -/
structure Circuits where
  breakers : Uuid → BreakerHash
  taken : Uuid → Nat

def Circuits.setBreaker (s : Circuits) (backendId : Uuid) (key : BreakerHash) : Circuits :=
  { s with breakers := Function.update s.breakers backendId key }

def Circuits.setTaken (s : Circuits) (backendId : Uuid) (slots : Nat) : Circuits :=
  { s with taken := Function.update s.taken backendId slots }

theorem Circuits.breakers_setBreaker (s : Circuits) (backendId id : Uuid) (key : BreakerHash) :
    (s.setBreaker backendId key).breakers id = if id = backendId then key else s.breakers id :=
  Function.update_apply ..

variable (cb : CircuitBreaker) (perBackendConcurrency : Nat)

/-- How breakers and semaphores answer. A script runs at some reading of the caller's clock
and may fail before or after it has run. Nothing is assumed of the other replies. -/
def CircuitHandles (s : Circuits) : (op : Op) → Reply op → Circuits → Prop
  | .allow backendId, r, s' =>
      (∃ now, s' = s.setBreaker backendId (cb.allow (s.breakers backendId) now).2 ∧
        ∀ verdict, r = .ok verdict → (cb.allow (s.breakers backendId) now).1 = .allowed verdict) ∨
      (s' = s ∧ ∃ e, r = .error e)
  | .record backendId ok, r, s' =>
      (∃ now, s' = s.setBreaker backendId (cb.record (s.breakers backendId) ok now).2) ∨
      (s' = s ∧ ∃ e, r = .error e)
  | .acquire backendId, r, s' =>
      (s.taken backendId < perBackendConcurrency ∧ r = .ok () ∧
        s' = s.setTaken backendId (s.taken backendId + 1)) ∨
      (s' = s ∧ ∃ e, r = .error e)
  | .release backendId, _, s' => s' = s.setTaken backendId (s.taken backendId - 1)
  | _, _, s' => s' = s

/-- Chat requests in one process, from breakers in any state. -/
def circuits (gw : RequestOrchestrator) (breakers : Uuid → BreakerHash) :
    Pool.System Nat Circuits Op Reply Outcome where
  initial := ⟨breakers, fun _ => 0⟩
  starts _ p := ∃ model, Starts gw (.request model) p
  handle := CircuitHandles cb perBackendConcurrency
  drift _ _ := False

/-! ## Between the check and the call -/

/-- A failure that is recorded now opens the breaker. -/
def Opening (key : BreakerHash) : Prop :=
  key.circuit = .halfOpen ∨ cb.failureThreshold ≤ (key.failures.getD 0 + 1 : Nat)

variable {cb perBackendConcurrency}

/-- A breaker that lets a request through is not open. -/
theorem circuit_of_allowed {key : BreakerHash} {now : Time}
    (h : (cb.allow key now).1 = .allowed true) : (cb.allow key now).2.circuit ≠ .opened := by
  obtain ⟨state, failures, openedAt⟩ := key
  match state with
  | none | some .closed | some .halfOpen =>
    simp [CircuitBreaker.allow, allowScript, BreakerHash.circuit]
  | some .opened =>
    revert h
    simp only [CircuitBreaker.allow, allowScript]
    cases openedAt with
    | none => simp
    | some openedAt =>
      by_cases hcool : (cb.cooldownSeconds : Time) ≤ now - openedAt <;>
        simp [hcool, BreakerHash.circuit]

/-- A breaker that is not open stays so, but for a failure that opens it. -/
theorem handle_circuit {s s' : Circuits} {op : Op} {r : Reply op}
    (hhandle : CircuitHandles cb perBackendConcurrency s op r s') {backendId : Uuid}
    (hclosed : (s.breakers backendId).circuit ≠ .opened)
    (hkept : op = .record backendId false → ¬ Opening cb (s.breakers backendId)) :
    (s'.breakers backendId).circuit ≠ .opened := by
  cases op with
  | allow id =>
    obtain ⟨now, rfl, -⟩ | ⟨rfl, -⟩ := hhandle
    · rw [Circuits.breakers_setBreaker]
      split
      · rename_i heq
        subst heq
        have hallow : cb.allow (s.breakers backendId) now = (.allowed true, s.breakers backendId) :=
          serve_allow_of_ne_opened hclosed
        rwa [hallow]
      · exact hclosed
    · exact hclosed
  | record id ok =>
    obtain ⟨now, rfl⟩ | ⟨rfl, -⟩ := hhandle
    · rw [Circuits.breakers_setBreaker]
      split
      · rename_i heq
        subst heq
        cases ok with
        | true =>
          have hsuccess := circuit_ok cb (s.breakers backendId) now
          exact fun hopen => nomatch hsuccess.symm.trans hopen
        | false =>
          have hfail : (cb.record (s.breakers backendId) false now).2 = _ := serve_record_fail
          unfold Opening at hkept
          rw [hfail, if_neg (hkept rfl)]
          exact hclosed
      · exact hclosed
    · exact hclosed
  | acquire id =>
    obtain ⟨-, -, rfl⟩ | ⟨rfl, -⟩ := hhandle <;> exact hclosed
  | release id =>
    obtain rfl : s' = s.setTaken id (s.taken id - 1) := hhandle
    exact hclosed
  | _ =>
    obtain rfl : s' = s := hhandle
    exact hclosed

section Runs
variable {gw : RequestOrchestrator} {breakers : Uuid → BreakerHash} {tag : Nat}
  {w : Pool Nat Circuits Op Reply Outcome} {before after : List (Nat × Event)} {backendId : Uuid}

/-- A breaker that has let a request through is not open, unless a failure has opened it
since. -/
theorem circuit_since
    (h : Pool.Reachable (circuits cb perBackendConcurrency gw breakers) w)
    (hhistory : w.history = before ++ (tag, ⟨.allow backendId, .ok true⟩) :: after) :
    (w.state.breakers backendId).circuit ≠ .opened ∨
      ∃ u since breaking later, Pool.Reachable (circuits cb perBackendConcurrency gw breakers) u ∧
        u.history = before ++ (tag, ⟨.allow backendId, .ok true⟩) :: since ∧
        after = since ++ breaking :: later ∧ breaking.2.1 = .record backendId false ∧
        Opening cb (u.state.breakers backendId) := by
  refine (h.kept_or_broken
    (fun e s => e.2 = ⟨.allow backendId, .ok true⟩ → (s.breakers backendId).circuit ≠ .opened)
    (fun s e => e.2.1 = .record backendId false ∧ Opening cb (s.breakers backendId)) ?_ ?_ ?_
    before _ after hhistory).imp_left fun hkept => hkept rfl
  · intro tag op r s s' hhandle heq
    obtain ⟨rfl, hr⟩ := Sigma.mk.inj heq
    obtain rfl := eq_of_heq hr
    obtain ⟨now, rfl, hverdict⟩ | ⟨-, e, he⟩ := hhandle
    · rw [Circuits.breakers_setBreaker, if_pos rfl]
      exact circuit_of_allowed (hverdict true rfl)
    · exact nomatch he
  · intro e tag op r s s' hkept hbreaks hhandle heq
    exact handle_circuit hhandle (hkept heq) fun hop hopening => hbreaks ⟨hop, hopening⟩
  · exact fun _ _ _ _ hdrift => hdrift.elim

/-- A request that is about to open a call has been let through to the backend, and has
only entered its semaphore since. -/
theorem entered_of_opens
    (h : Pool.Reachable (circuits cb perBackendConcurrency gw breakers) w)
    (hnodup : (w.tasks.map Prod.fst).Nodup) {op : Op} {next : Reply op → Program Op Reply Outcome}
    (htask : (tag, .perform op next) ∈ w.tasks) {client : Client} (hopens : Opens client op) :
    ∃ backend before after,
      w.history = before ++ (tag, ⟨.allow backend.id, .ok true⟩) :: after ∧
      Offered (Pool.own tag before) backend client ∧
      Pool.own tag after = [⟨.acquire backend.id, .ok ()⟩] := by
  obtain ⟨p, ⟨model, hstart⟩, hfollows⟩ := h.follows hnodup _ htask
  have horderly := orderly_of_follows (hstart.orderly _) (hfollows.snoc (.error .cancelled))
  obtain ⟨earlier, backend, hown, hoffered⟩ := horderly.split.entered client hopens
  obtain ⟨before, after, hhistory, rfl, hafter⟩ := Pool.exists_split_of_own hown
  exact ⟨backend, before, after, hhistory, hoffered, hafter⟩

end Runs

/-- When a request opens a call, the breaker of the backend has let it through before, and
is not open unless a failure that another request has recorded since has opened it. -/
theorem no_call_on_open (cb : CircuitBreaker) (perBackendConcurrency : Nat)
    (gw : RequestOrchestrator) (breakers : Uuid → BreakerHash)
    {w : Pool Nat Circuits Op Reply Outcome}
    (hreach : Pool.Reachable (circuits cb perBackendConcurrency gw breakers) w)
    (hnodup : (w.tasks.map Prod.fst).Nodup) {tag : Nat} {op : Op}
    {next : Reply op → Program Op Reply Outcome} (htask : (tag, .perform op next) ∈ w.tasks)
    {client : Client} (hopens : Opens client op) :
    ∃ backend before after,
      w.history = before ++ (tag, ⟨.allow backend.id, .ok true⟩) :: after ∧
      Offered (Pool.own tag before) backend client ∧
      Pool.own tag after = [⟨.acquire backend.id, .ok ()⟩] ∧
      ((w.state.breakers backend.id).circuit ≠ .opened ∨
        ∃ u since tag' r later, Pool.Reachable (circuits cb perBackendConcurrency gw breakers) u ∧
          u.history = before ++ (tag, ⟨.allow backend.id, .ok true⟩) :: since ∧
          after = since ++ (tag', ⟨.record backend.id false, r⟩) :: later ∧ tag' ≠ tag ∧
          Opening cb (u.state.breakers backend.id)) := by
  obtain ⟨backend, before, after, hhistory, hoffered, hafter⟩ :=
    entered_of_opens hreach hnodup htask hopens
  refine ⟨backend, before, after, hhistory, hoffered, hafter,
    (circuit_since hreach hhistory).imp_right ?_⟩
  rintro ⟨u, since, ⟨tag', op', r⟩, later, hu, hsince, rfl, rfl, hopening⟩
  refine ⟨u, since, tag', r, later, hu, hsince, rfl, fun htag => ?_, hopening⟩
  -- between its check and its call the request itself only enters the semaphore
  have hmem : ⟨.record backend.id false, r⟩ ∈
      Pool.own tag (since ++ (tag', ⟨.record backend.id false, r⟩) :: later) :=
    Pool.mem_own.mpr (by simp [htag])
  rw [hafter, List.mem_singleton] at hmem
  exact nomatch congrArg Sigma.fst hmem

/-! ## Two requests and one slot -/

/-- How the gateway answers at time zero, with the backends `brokenAndHealthy`. -/
def answerCircuits (cb : CircuitBreaker) (perBackendConcurrency : Nat) :
    Program.Handler Op Reply Circuits := fun s op =>
  match op with
  | .allow backendId =>
    match cb.allow (s.breakers backendId) 0 with
    | (.allowed verdict, key) => (.ok verdict, s.setBreaker backendId key)
    | (_, key) => (.error (.failure "ResponseError"), s.setBreaker backendId key)
  | .record backendId ok =>
    (.ok (), s.setBreaker backendId (cb.record (s.breakers backendId) ok 0).2)
  | .acquire backendId =>
    if s.taken backendId < perBackendConcurrency then
      (.ok (), s.setTaken backendId (s.taken backendId + 1))
    else (.error .cancelled, s)
  | .release backendId => (.ok (), s.setTaken backendId (s.taken backendId - 1))
  | op => (failoverAnswer op, s)

theorem answerCircuits_handle (gw : RequestOrchestrator) (breakers : Uuid → BreakerHash)
    (s : Circuits) (op : Op) :
    (circuits cb perBackendConcurrency gw breakers).handle s op
      (answerCircuits cb perBackendConcurrency s op).1
      (answerCircuits cb perBackendConcurrency s op).2 := by
  cases op with
  | allow backendId =>
    refine .inl ⟨0, ?_⟩
    cases hallow : cb.allow (s.breakers backendId) 0 with
    | mk reply key => cases reply <;> simp [answerCircuits, hallow]
  | record backendId ok => exact .inl ⟨0, rfl⟩
  | acquire backendId =>
    by_cases hfree : s.taken backendId < perBackendConcurrency
    · exact .inl ⟨hfree, by simp [answerCircuits, hfree]⟩
    · exact .inr (by simp [answerCircuits, hfree])
  | _ => rfl

/-- The client that the program is about to call. -/
def aboutToCall {α : Type} : Program Op Reply α → Option Client
  | .perform (.complete client _ _) _ | .perform (.stream client _ _) _ => some client
  | _ => none

theorem exists_of_aboutToCall {α : Type} {p : Program Op Reply α} {client : Client}
    (h : aboutToCall p = some client) : ∃ op next, p = .perform op next ∧ Opens client op := by
  cases p with
  | pure a => exact nomatch h
  | perform op next =>
    refine ⟨op, next, rfl, ?_⟩
    cases op <;> first | exact Option.some.inj h | exact nomatch h

/-- The task with this tag is about to call the client. -/
def AboutToCall (w : Pool Nat Circuits Op Reply Outcome) (tag : Nat) (client : Client) : Prop :=
  (tag, some client) ∈ w.tasks.map fun task => (task.1, aboutToCall task.2)

instance (w : Pool Nat Circuits Op Reply Outcome) (tag : Nat) (client : Client) :
    Decidable (AboutToCall w tag client) := inferInstanceAs (Decidable (_ ∈ _))

theorem AboutToCall.exists {w : Pool Nat Circuits Op Reply Outcome} {tag : Nat} {client : Client}
    (h : AboutToCall w tag client) :
    ∃ op next, (tag, .perform op next) ∈ w.tasks ∧ Opens client op := by
  obtain ⟨⟨tag', p⟩, htask, heq⟩ := List.mem_map.mp h
  obtain ⟨rfl, hcall⟩ := Prod.mk.inj heq
  obtain ⟨op, next, rfl, hopens⟩ := exists_of_aboutToCall hcall
  exact ⟨op, next, htask, hopens⟩

/-- The pairs that the registry has offered. -/
def offers (past : List Event) : List (Backend × Client) :=
  past.flatMap fun
    | ⟨.candidates _, .ok pairs⟩ => pairs
    | _ => []

theorem mem_offers {past : List Event} {backend : Backend} {client : Client} :
    (backend, client) ∈ offers past ↔ Offered past backend client := by
  unfold offers Offered
  rw [List.mem_flatMap]
  constructor
  · rintro ⟨ev, hev, hpair⟩
    split at hpair
    · exact ⟨_, _, hev, hpair⟩
    · exact absurd hpair List.not_mem_nil
  · rintro ⟨model, pairs, hev, hpair⟩
    exact ⟨_, hev, hpair⟩

/-- Requests for the same model have started, with breakers that have never been used. -/
def sameModel (tags : List Nat) : Pool Nat Circuits Op Reply Outcome where
  state := ⟨fun _ => .absent, fun _ => 0⟩
  history := []
  tasks := tags.map fun tag =>
    (tag, Outcome.completed <$> (handleComplete zeroDigest hiRequest).run)

theorem sameModel_reachable (tags turns : List Nat) :
    Pool.Reachable (circuits cb perBackendConcurrency zeroDigest fun _ => .absent)
      ((sameModel tags).schedule (answerCircuits cb perBackendConcurrency) turns) := by
  refine .schedule (answerCircuits_handle _ _) (.starts .initial fun task htask => ?_) _
  obtain ⟨tag, -, rfl⟩ := List.mem_map.mp htask
  exact ⟨_, .complete hiRequest⟩

/-- The second of two requests that share the slot has waited for it, and the first one has opened
the breaker in the meantime. -/
theorem no_call_on_open_shared :
    let w := (sameModel [0, 1]).schedule (answerCircuits ⟨1, 30⟩ 1)
      [0, 0, 0, 0, 0, 0, 0, 0, 1, 1, 1, 1, 1, 1, 1, 0, 0, 0, 1]
    AboutToCall w 1 ⟨0⟩ ∧ (w.state.breakers 0).circuit = .opened ∧ ∃ backend before after,
      w.history = before ++ (1, ⟨.allow backend.id, .ok true⟩) :: after ∧
      Offered (Pool.own 1 before) backend ⟨0⟩ ∧
      Pool.own 1 after = [⟨.acquire backend.id, .ok ()⟩] ∧
      ((w.state.breakers backend.id).circuit ≠ .opened ∨
        ∃ u since tag' r later,
          Pool.Reachable (circuits ⟨1, 30⟩ 1 zeroDigest fun _ => .absent) u ∧
          u.history = before ++ (1, ⟨.allow backend.id, .ok true⟩) :: since ∧
          after = since ++ (tag', ⟨.record backend.id false, r⟩) :: later ∧ tag' ≠ 1 ∧
          Opening ⟨1, 30⟩ (u.state.breakers backend.id)) := by
  intro w
  have hcall : (w.tasks.map Prod.fst).Nodup ∧ AboutToCall w 1 ⟨0⟩ ∧
      (w.state.breakers 0).circuit = .opened := by
    unfold w sameModel handleComplete
    rw [walk_evaluates]
    decide +kernel
  obtain ⟨op, next, htask, hopens⟩ := hcall.2.1.exists
  exact ⟨hcall.2.1, hcall.2.2, no_call_on_open ⟨1, 30⟩ 1 zeroDigest (fun _ => .absent)
    (sameModel_reachable [0, 1] _) hcall.1 htask hopens⟩

/-- The second request has been let through when it finds the slot taken. Before it gets it
the first one fails, and that opens the breaker. -/
theorem open_circuit_called :
    ∃ w, Pool.Reachable (circuits ⟨1, 30⟩ 1 zeroDigest fun _ => .absent) w ∧
      (w.tasks.map Prod.fst).Nodup ∧
      ∃ op next client backend, (1, .perform op next) ∈ w.tasks ∧ Opens client op ∧
        Offered (Pool.own 1 w.history) backend client ∧
        (∀ other, Offered (Pool.own 1 w.history) other client → other = backend) ∧
        (w.state.breakers backend.id).circuit = .opened := by
  obtain ⟨w, hreach, hnodup, hcall, ⟨backend, client⟩, hpair, rfl, hunique, hbreaker⟩ :
      ∃ w, Pool.Reachable (circuits ⟨1, 30⟩ 1 zeroDigest fun _ => .absent) w ∧
        (w.tasks.map Prod.fst).Nodup ∧ AboutToCall w 1 ⟨0⟩ ∧
        ∃ pair ∈ offers (Pool.own 1 w.history), pair.2 = ⟨0⟩ ∧
          (∀ other ∈ offers (Pool.own 1 w.history), other.2 = ⟨0⟩ → other.1 = pair.1) ∧
          (w.state.breakers pair.1.id).circuit = .opened := by
    refine ⟨_, sameModel_reachable [0, 1]
      [0, 0, 0, 0, 0, 0, 0, 0, 1, 1, 1, 1, 1, 1, 1, 0, 0, 0, 1], ?_⟩
    unfold sameModel handleComplete
    rw [walk_evaluates]
    decide +kernel
  obtain ⟨op, next, htask, hopens⟩ := hcall.exists
  refine ⟨w, hreach, hnodup, op, next, _, backend, htask, hopens, mem_offers.mp hpair,
    fun other hother => ?_, hbreaker⟩
  exact hunique (other, _) (mem_offers.mpr hother) rfl

end InferenceGateway.Orchestrator
