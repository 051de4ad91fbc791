import InferenceGateway.Orchestrator.Reservations
import InferenceGateway.Orchestrator.SharedBudget

/-!
# Admissions, reconciliations and the log

Redis keeps the limiter of a key, the log is a table of its own, and a request that is interrupted
leaves what it has not done undone. Still, for every key, the reservations that have been
reconciled in Redis are among those that have been admitted there, and the tokens in the log are
among those that have been charged there.
-/
namespace InferenceGateway.Orchestrator
open Library Redis Resilience Resilience.RateLimit
open scoped List

/-- What is entered for one key. -/
def ofKey {β : Type} (apiKeyId : Uuid) (entries : List (Uuid × β)) : List β :=
  (entries.filter fun x => x.1 = apiKeyId).map Prod.snd

/-- The reservation with which a call has been admitted. -/
def admittedId : Request × RateLimit.Reply → Option ReservationId
  | (⟨_, _, .reserve id _⟩, .admitted) => some id
  | _ => none

def reconciledId (r : Request) : Option ReservationId :=
  match r.call with
  | .reconcile id _ => some id
  | .reserve .. => none

def chargedTokens (r : Request) : Option Int :=
  match r.call with
  | .reconcile _ actualTokens => some actualTokens
  | .reserve .. => none

def Op.isReconcile : Op → Bool
  | .reconcile .. => true
  | _ => false

section Entries
variable {β : Type} {apiKeyId : Uuid} {entries entries' : List (Uuid × β)}

@[simp] theorem ofKey_append :
    ofKey apiKeyId (entries ++ entries') = ofKey apiKeyId entries ++ ofKey apiKeyId entries' := by
  simp [ofKey]

@[simp] theorem ofKey_self (x : β) : ofKey apiKeyId [(apiKeyId, x)] = [x] := by
  simp [ofKey]

theorem ofKey_of_ne {id : Uuid} (h : id ≠ apiKeyId) (x : β) : ofKey apiKeyId [(id, x)] = [] := by
  simp [ofKey, h]

theorem perm_ofKey (h : entries ~ entries') :
    ofKey apiKeyId entries ~ ofKey apiKeyId entries' :=
  (h.filter _).map _

theorem subperm_ofKey (h : entries <+~ entries') :
    ofKey apiKeyId entries <+~ ofKey apiKeyId entries' := by
  obtain ⟨part, hperm, hsub⟩ := h
  have hsub' : ofKey apiKeyId part <+ ofKey apiKeyId entries' := (hsub.filter _).map _
  exact ⟨_, perm_ofKey hperm, hsub'⟩

end Entries

section Handles
variable {replicas : Replicas} {answers : (op : Op) → Reply op → Prop} {s s' : SharedStores}
  {op : Op} {r : Reply op}

/-- The calls of the limiter of a key with their replies. -/
def limiterPast (replicas : Replicas) (apiKeyId : Uuid) (redis : List Command) :
    List RateLimit.Event :=
  (limiter (replicas.settings.apiKeys apiKeyId)).history (callsOfKey apiKeyId redis)

theorem entries_error (op : Op) (e : Raised) :
    granted ⟨op, .error e⟩ = [] ∧ charges ⟨op, .error e⟩ = [] := by
  cases op <;> exact ⟨rfl, rfl⟩

/-- Only an admission returns the reservation. -/
theorem granted_reserve {apiKeyId : Uuid} {est budget window : Int} {id : ReservationId}
    {reply : RateLimit.Reply} (h : reply ≠ .admitted) :
    granted ⟨.reserve apiKeyId est budget window, Replicas.reserved id reply⟩ = [] := by
  cases reply <;> first | rfl | exact absurd rfl h

/-- What an operation does to the limiter of a key: nothing, or it runs one of the scripts for it,
and returns a reservation only if the script has admitted it. -/
theorem StoresHandle.limiter_cases (h : StoresHandle replicas answers s op r s')
    (apiKeyId : Uuid) :
    (callsOfKey apiKeyId s'.redis = callsOfKey apiKeyId s.redis ∧
      ofKey apiKeyId (granted ⟨op, r⟩) = [] ∧ ofKey apiKeyId (charges ⟨op, r⟩) = []) ∨
    (∃ served clock id est, callsOfKey apiKeyId s'.redis = callsOfKey apiKeyId s.redis ++
        [⟨served, clock, .reserve id est⟩] ∧ reconciled ⟨op, r⟩ = [] ∧ charges ⟨op, r⟩ = [] ∧
      (granted ⟨op, r⟩ = [] ∨ granted ⟨op, r⟩ = [(apiKeyId, id)] ∧
        ((limiter (replicas.settings.apiKeys apiKeyId)).serve
          ((limiter (replicas.settings.apiKeys apiKeyId)).state (callsOfKey apiKeyId s.redis))
          ⟨served, clock, .reserve id est⟩).1 = .admitted)) ∨
    ∃ served clock id actual, callsOfKey apiKeyId s'.redis = callsOfKey apiKeyId s.redis ++
        [⟨served, clock, .reconcile id actual⟩] ∧ op = .reconcile apiKeyId id actual := by
  obtain ⟨hredis, hquiet⟩ | ⟨c, reply, r', hexchange, hredis, hreply⟩ := h.redis_cases
  · refine .inl ⟨by rw [hredis], ?_⟩
    suffices hnone : granted ⟨op, r⟩ = [] ∧ charges ⟨op, r⟩ = [] by
      rw [hnone.1, hnone.2]
      exact ⟨rfl, rfl⟩
    obtain ⟨e, rfl⟩ | hlocal | ⟨model, embedding, rfl⟩ | ⟨entry, rfl⟩ := hquiet
    · exact entries_error op e
    · cases op <;> first | exact ⟨rfl, rfl⟩ | exact absurd hlocal Bool.false_ne_true.symm
    · exact ⟨rfl, rfl⟩
    · exact ⟨rfl, rfl⟩
  · have hother : c.1 ≠ .ratelimit apiKeyId →
        callsOfKey apiKeyId s'.redis = callsOfKey apiKeyId s.redis := fun hne => by
      rw [hredis]
      exact Layout.callsOf_concat_of_ne hne
    have hself : ∀ request : Request, c = ⟨.ratelimit apiKeyId, request⟩ →
        callsOfKey apiKeyId s'.redis = callsOfKey apiKeyId s.redis ++ [request] := by
      rintro request rfl
      rw [hredis]
      exact Layout.callsOf_concat_self _
    cases hexchange with
    | @reserve id' est budget window served clock id reply hbudget hwindow =>
      by_cases hid : id' = apiKeyId
      · subst hid
        refine .inr (.inl ⟨served, clock, id, est, hself _ rfl, rfl, rfl, ?_⟩)
        obtain ⟨rfl, hreply⟩ | ⟨e, rfl⟩ := hreply
        · by_cases hadmitted : reply = .admitted
          · exact .inr ⟨by rw [hadmitted]; rfl, hreply.symm.trans hadmitted⟩
          · exact .inl (granted_reserve hadmitted)
        · exact .inl rfl
      · refine .inl ⟨hother (by simpa using hid), ?_, rfl⟩
        obtain ⟨rfl, -⟩ | ⟨e, rfl⟩ := hreply
        · cases reply <;> first | rfl | exact ofKey_of_ne hid id
        · rfl
    | @reconcile id' id actual served clock reply =>
      by_cases hid : id' = apiKeyId
      · subst hid
        exact .inr (.inr ⟨served, clock, id, actual, hself _ rfl, rfl⟩)
      · refine .inl ⟨hother (by simpa using hid), rfl, ?_⟩
        cases r with
        | ok u => exact ofKey_of_ne hid actual
        | error e => rfl
    | _ => exact .inl ⟨hother (by simp [Replicas.entry]), rfl, rfl⟩

/-! ## Redis and the requests -/

/-- For this key, what the requests have been told agrees with what Redis has done. -/
structure Accounted (replicas : Replicas) (apiKeyId : Uuid) (s : SharedStores)
    (history : List (Nat × Event)) : Prop where
  granted : ofKey apiKeyId (history.flatMap fun e => granted e.2) <+
    (limiterPast replicas apiKeyId s.redis).filterMap admittedId
  reconciled : (callsOfKey apiKeyId s.redis).filterMap reconciledId <+
    ofKey apiKeyId (history.flatMap fun e => reconciled e.2)
  charged : ofKey apiKeyId (history.flatMap fun e => charges e.2) <+
    (callsOfKey apiKeyId s.redis).filterMap chargedTokens
  answered : (∀ e ∈ history, e.2.1.isReconcile = true → e.2.2.isOk = true) →
    ofKey apiKeyId (history.flatMap fun e => charges e.2) =
      (callsOfKey apiKeyId s.redis).filterMap chargedTokens

/-- One operation. -/
theorem StoresHandle.accounted (h : StoresHandle replicas answers s op r s') {apiKeyId : Uuid}
    {history : List (Nat × Event)} (hbooks : Accounted replicas apiKeyId s history) (tag : Nat) :
    Accounted replicas apiKeyId s' (history ++ [(tag, ⟨op, r⟩)]) := by
  have hearlier : (∀ e ∈ history ++ [(tag, ⟨op, r⟩)], e.2.1.isReconcile = true →
      e.2.2.isOk = true) → ∀ e ∈ history, e.2.1.isReconcile = true → e.2.2.isOk = true :=
    fun hok e he => hok e (List.mem_append_left _ he)
  obtain ⟨hcalls, hgranted, hcharges⟩ |
      ⟨served, clock, id, est, hcalls, hreconciled, hcharges, hgranted⟩ |
      ⟨served, clock, id, actual, hcalls, rfl⟩ := h.limiter_cases apiKeyId
  · refine ⟨?_, ?_, ?_, fun hok => ?_⟩
    · simpa [limiterPast, hcalls, hgranted] using hbooks.granted
    · simpa [hcalls] using hbooks.reconciled.trans (List.sublist_append_left _ _)
    · simpa [hcalls, hcharges] using hbooks.charged
    · simpa [hcalls, hcharges] using hbooks.answered (hearlier hok)
  · refine ⟨?_, ?_, ?_, fun hok => ?_⟩
    · obtain hnone | ⟨hone, hadmitted⟩ := hgranted
      · simpa [limiterPast, hcalls, hnone] using
          hbooks.granted.trans (List.sublist_append_left _ _)
      · simpa [limiterPast, hcalls, hone, hadmitted, admittedId] using hbooks.granted
    · simpa [hcalls, hreconciled, List.filterMap_cons, reconciledId] using hbooks.reconciled
    · simpa [hcalls, hcharges, List.filterMap_cons, chargedTokens] using hbooks.charged
    · simpa [hcalls, hcharges, List.filterMap_cons, chargedTokens] using
        hbooks.answered (hearlier hok)
  · refine ⟨?_, ?_, ?_, fun hok => ?_⟩
    · simpa [limiterPast, hcalls, granted, List.filterMap_cons, admittedId] using hbooks.granted
    · simpa [hcalls, reconciled, reconciledId] using hbooks.reconciled
    · cases r with
      | ok u => simpa [hcalls, charges, chargedTokens] using hbooks.charged
      | error e =>
        simpa [hcalls, charges, chargedTokens] using
          hbooks.charged.trans (List.sublist_append_left _ _)
    · cases r with
      | ok u => simpa [hcalls, charges, chargedTokens] using hbooks.answered (hearlier hok)
      | error e =>
        have hreplied : (⟨.reconcile apiKeyId id actual, .error e⟩ : Event).2.isOk = true :=
          hok (tag, ⟨.reconcile apiKeyId id actual, .error e⟩) (by simp) rfl
        exact absurd hreplied Bool.false_ne_true

end Handles

section Runs
variable {replicas : Replicas} {answers : (op : Op) → Reply op → Prop} {gw : RequestOrchestrator}
  {w : Pool Nat SharedStores Op Reply Outcome}

theorem runsRequests_sharing : RunsRequests (sharing replicas answers gw) gw :=
  fun _ _ ⟨req, _, hp⟩ => ⟨req, hp⟩

theorem accounted_of_reachable (h : Pool.Reachable (sharing replicas answers gw) w)
    (apiKeyId : Uuid) : Accounted replicas apiKeyId w.state w.history := by
  refine h.invariant ?_ ?_ ?_
  · exact ⟨.slnil, .slnil, .slnil, fun _ => rfl⟩
  · intro tag s history op r s' hbooks hhandle
    exact StoresHandle.accounted hhandle hbooks tag
  · intro s history s' hbooks hdrift
    exact False.elim hdrift

/-- However the requests of all replicas are interleaved, and whatever is lost or interrupted, for
every API key the reservations that Redis has been told to reconcile are among those that it has
admitted, each as often at most, and the tokens that the log says answered requests have used are
among those that Redis has been told to charge. They are these once all requests have ended, if
no clock, reconciliation or insert has raised. -/
theorem reservations_accounted (replicas : Replicas) (answers : (op : Op) → Reply op → Prop)
    (gw : RequestOrchestrator) {w : Pool Nat SharedStores Op Reply Outcome}
    (hreach : Pool.Reachable (sharing replicas answers gw) w)
    (hnodup : (w.tasks.map Prod.fst).Nodup) (apiKeyId : Uuid) :
    (callsOfKey apiKeyId w.state.redis).filterMap reconciledId <+~
        (limiterPast replicas apiKeyId w.state.redis).filterMap admittedId ∧
      ofKey apiKeyId (w.history.flatMap fun e => loggedTokens e.2) <+~
        (callsOfKey apiKeyId w.state.redis).filterMap chargedTokens ∧
      ((∀ task ∈ w.tasks, ∃ outcome, task.2 = .pure outcome) →
        (∀ e ∈ w.history, (e.2.1.isReconcile || e.2.1.precedesRow) = true → e.2.2.isOk = true) →
        ofKey apiKeyId (w.history.flatMap fun e => loggedTokens e.2) ~
          (callsOfKey apiKeyId w.state.redis).filterMap chargedTokens) := by
  have hbooks := accounted_of_reachable hreach apiKeyId
  refine ⟨?_, ?_, fun hended hkept => ?_⟩
  · have hamong := reconciled_subperm_granted runsRequests_sharing hreach hnodup
    exact hbooks.reconciled.subperm.trans ((subperm_ofKey hamong).trans hbooks.granted.subperm)
  · have hamong := logged_subperm_charges runsRequests_sharing hreach hnodup
    exact (subperm_ofKey hamong).trans hbooks.charged.subperm
  · have hsame := logged_perm_charges runsRequests_sharing hreach hnodup hended
      fun e he hop => hkept e he (by rw [hop, Bool.or_true])
    rw [← hbooks.answered fun e he hop => hkept e he (by rw [hop, Bool.true_or])]
    exact perm_ofKey hsame

/-- Two equal requests: both are charged and logged. -/
theorem reservations_accounted_two :
    let w := (sameRequest [0, 1]).schedule (answerStores sampleReplicas failoverAnswer)
      (List.replicate 27 0 ++ List.replicate 7 1)
    (callsOfKey perMinute.id w.state.redis).filterMap chargedTokens = [2, 2] ∧
      ofKey perMinute.id (w.history.flatMap fun e => loggedTokens e.2) ~
        (callsOfKey perMinute.id w.state.redis).filterMap chargedTokens := by
  intro w
  have hreach : Pool.Reachable (sharing sampleReplicas (fun _ _ => True) zeroDigest) w :=
    sameRequest_reachable (fun _ => trivial) _ _
  have hnodup : (w.tasks.map Prod.fst).Nodup := by
    rw [Pool.map_fst_schedule]
    decide
  have hran : (callsOfKey perMinute.id w.state.redis).filterMap chargedTokens = [2, 2] ∧
      (w.tasks.all fun task => Pool.isPure task.2) = true ∧
      (w.history.all fun e => !(e.2.1.isReconcile || e.2.1.precedesRow) || e.2.2.isOk) =
        true := by
    unfold w sameRequest handleComplete
    rw [walk_evaluates]
    decide +kernel
  obtain ⟨hcharged, hended, hkept⟩ := hran
  refine ⟨hcharged,
    (reservations_accounted sampleReplicas _ zeroDigest hreach hnodup perMinute.id).2.2 ?_ ?_⟩
  · intro task htask
    exact Pool.isPure_iff.mp (List.all_eq_true.mp hended task htask)
  · intro e he hop
    simpa [hop] using List.all_eq_true.mp hkept e he

end Runs

end InferenceGateway.Orchestrator
