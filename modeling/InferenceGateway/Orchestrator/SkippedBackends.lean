import InferenceGateway.Orchestrator.SharedStores

/-!
# Which backends are skipped

A request skips a candidate if its breaker says so. The breaker is shared by all replicas, its
replies may be lost and the clocks that are sent along may say anything; still a backend is only
skipped after as many failed calls as the threshold asks for, with no acknowledged success
between them.
-/
namespace InferenceGateway.Orchestrator
open Library Redis Resilience Resilience.Breaker

/-- The success of a call of the backend is known to have been recorded. -/
def acknowledges (backendId : Uuid) : Event → Bool
  | ⟨.record id true, .ok _⟩ => id = backendId
  | _ => false

/-- A failure of a call of the backend is reported, whether it has been recorded or not. -/
def reportsFailure (backendId : Uuid) : Event → Bool
  | ⟨.record id false, _⟩ => id = backendId
  | _ => false

/-- The breaker of the backend has refused it. -/
def refuses (backendId : Uuid) : Event → Bool
  | ⟨.allow id, .ok false⟩ => id = backendId
  | _ => false

theorem eq_of_refuses {backendId : Uuid} {ev : Event} (h : refuses backendId ev = true) :
    ev = ⟨.allow backendId, .ok false⟩ := by
  unfold refuses at h
  split at h
  · rw [of_decide_eq_true h]
  · exact nomatch h

/-- The failures of the backend that all requests have reported since the last success that was
acknowledged. -/
def failuresReported (backendId : Uuid) (history : List (Nat × Event)) : Nat :=
  (history.reverse.takeWhile fun e => !acknowledges backendId e.2).countP
    fun e => reportsFailure backendId e.2

theorem acknowledges_error (backendId : Uuid) (op : Op) (e : Raised) :
    acknowledges backendId ⟨op, .error e⟩ = false := by
  cases op with
  | record id ok => cases ok <;> rfl
  | _ => rfl

theorem acknowledges_of_ne {backendId id : Uuid} (h : id ≠ backendId) (ok : Bool)
    (r : Reply (.record id ok)) : acknowledges backendId ⟨.record id ok, r⟩ = false := by
  cases ok with
  | false => rfl
  | true => cases r <;> simp [acknowledges, h]

theorem eq_of_allowed {reply : Breaker.Reply} {verdict : Bool}
    (h : .ok verdict = Replicas.allowed reply) : reply = .allowed verdict := by
  cases reply with
  | allowed verdict' => rw [Except.ok.inj h]
  | _ => exact nomatch h

section Counting
variable {backendId : Uuid} {history : List (Nat × Event)} {e : Nat × Event}

theorem failuresReported_concat (h : acknowledges backendId e.2 = false) :
    failuresReported backendId (history ++ [e]) =
      failuresReported backendId history + if reportsFailure backendId e.2 then 1 else 0 := by
  simp [failuresReported, h, List.countP_cons]

theorem le_failuresReported_concat (h : acknowledges backendId e.2 = false) :
    failuresReported backendId history ≤ failuresReported backendId (history ++ [e]) := by
  rw [failuresReported_concat h]
  omega

end Counting

variable {replicas : Replicas} {answers : (op : Op) → Reply op → Prop} {s s' : SharedStores}
  {op : Op} {r : Reply op}

/-- The calls of the breaker of a backend that Redis has run. -/
def breakerCalls (backendId : Uuid) (redis : List Command) : List Breaker.Call :=
  Layout.callsOf (Part.breaker backendId) redis

def breakerPast (replicas : Replicas) (backendId : Uuid) (redis : List Command) :
    List Breaker.Event :=
  replicas.settings.breaker.service.history (breakerCalls backendId redis)

/-- What an operation does to the breaker of a backend: it runs `allow` and returns its verdict
or raises, it runs `record`, or it leaves the breaker alone. -/
theorem StoresHandle.breaker_cases (h : StoresHandle replicas answers s op r s')
    (backendId : Uuid) :
    (breakerCalls backendId s'.redis = breakerCalls backendId s.redis ∧
      acknowledges backendId ⟨op, r⟩ = false ∧ ∀ verdict,
      (⟨op, r⟩ : Event) ≠ ⟨.allow backendId, .ok verdict⟩) ∨
    (∃ now, breakerCalls backendId s'.redis = breakerCalls backendId s.redis ++ [.allow now] ∧
      op = .allow backendId ∧ ∀ verdict, (⟨op, r⟩ : Event) = ⟨.allow backendId, .ok verdict⟩ →
        (replicas.settings.breaker.serve (replicas.settings.breaker.service.state
          (breakerCalls backendId s.redis)) (.allow now)).1 = .allowed verdict) ∨
    ∃ ok now, breakerCalls backendId s'.redis =
      breakerCalls backendId s.redis ++ [.record ok now] ∧ op = .record backendId ok := by
  obtain ⟨hredis, hquiet⟩ | ⟨c, reply, r', hexchange, hredis, hreply⟩ := h.redis_cases
  · refine .inl ⟨by rw [hredis], ?_, ?_⟩
    · obtain ⟨e, rfl⟩ | hop | ⟨model, embedding, rfl⟩ | ⟨entry, rfl⟩ := hquiet
      · exact acknowledges_error backendId op e
      · cases op <;> first | rfl | simp [Op.isShared] at hop
      · rfl
      · rfl
    · rintro verdict heq
      obtain ⟨rfl, hr⟩ := Sigma.mk.inj heq
      obtain rfl := eq_of_heq hr
      simp [Op.isShared] at hquiet
  · have hother : c.1 ≠ .breaker backendId →
        breakerCalls backendId s'.redis = breakerCalls backendId s.redis := fun hne => by
      rw [hredis]
      exact Layout.callsOf_concat_of_ne hne
    cases hexchange with
    | @allow id now reply =>
      by_cases hid : id = backendId
      · subst hid
        refine .inr (.inl ⟨now, ?_, rfl, fun verdict heq => ?_⟩)
        · rw [hredis]
          exact Layout.callsOf_concat_self _
        · obtain rfl := eq_of_heq (Sigma.mk.inj heq).2
          obtain ⟨hr, hreply⟩ | ⟨e, he⟩ := hreply
          · exact hreply ▸ eq_of_allowed hr
          · exact nomatch he
      · refine .inl ⟨hother (by simpa using hid), rfl, fun verdict heq => hid ?_⟩
        exact Op.allow.inj (Sigma.mk.inj heq).1
    | @record id ok now reply =>
      by_cases hid : id = backendId
      · subst hid
        refine .inr (.inr ⟨ok, now, ?_, rfl⟩)
        rw [hredis]
        exact Layout.callsOf_concat_self _
      · exact .inl ⟨hother (by simpa using hid), acknowledges_of_ne hid ok r,
          fun verdict heq => nomatch (Sigma.mk.inj heq).1⟩
    | _ => exact .inl ⟨hother (by simp [Replicas.entry]), rfl, by simp⟩

/-- No failure is forgotten: the failures that the breaker counts have been reported. -/
theorem StoresHandle.failures_le (h : StoresHandle replicas answers s op r s') {backendId : Uuid}
    {history : List (Nat × Event)}
    (hle : failuresSinceSuccess (breakerPast replicas backendId s.redis) ≤
      failuresReported backendId history) (tag : Nat) :
    failuresSinceSuccess (breakerPast replicas backendId s'.redis) ≤
      failuresReported backendId (history ++ [(tag, ⟨op, r⟩)]) := by
  obtain ⟨hcalls, hno, -⟩ | ⟨now, hcalls, rfl, -⟩ | ⟨ok, now, hcalls, rfl⟩ :=
    h.breaker_cases backendId
  · unfold breakerPast
    rw [hcalls]
    exact hle.trans (le_failuresReported_concat hno)
  · unfold breakerPast
    rw [hcalls, Service.history_concat, failuresSinceSuccess_allow]
    exact hle.trans (le_failuresReported_concat rfl)
  · unfold breakerPast
    rw [hcalls, Service.history_concat]
    cases ok with
    | true =>
      rw [failuresSinceSuccess_ok]
      exact Nat.zero_le _
    | false =>
      rw [failuresSinceSuccess_fail, failuresReported_concat rfl]
      have hone : reportsFailure backendId ⟨.record backendId false, r⟩ = true := by
        simp [reportsFailure]
      rw [if_pos hone]
      exact Nat.succ_le_succ hle

section Runs
variable {gw : RequestOrchestrator} {w : Pool Nat SharedStores Op Reply Outcome}
  {before after : List (Nat × Event)} {tag : Nat} {backendId : Uuid}

theorem failures_le_reported (h : Pool.Reachable (sharing replicas answers gw) w)
    (backendId : Uuid) :
    failuresSinceSuccess (breakerPast replicas backendId w.state.redis) ≤
      failuresReported backendId w.history := by
  let Counted (s : SharedStores) (history : List (Nat × Event)) : Prop :=
    failuresSinceSuccess (breakerPast replicas backendId s.redis) ≤
      failuresReported backendId history
  suffices hcounted : Counted w.state w.history from hcounted
  refine h.invariant (Nat.zero_le _) ?_ ?_
  · intro tag s history op r s' hle hhandle
    exact StoresHandle.failures_le hhandle hle tag
  · intro s history s' hle hdrift
    exact False.elim hdrift

/-- A breaker that refuses has counted as many failures as the threshold. -/
theorem threshold_le_of_refused
    (h : StoresHandle replicas answers s (.allow backendId) (.ok false) s') :
    replicas.settings.breaker.failureThreshold ≤
      failuresSinceSuccess (breakerPast replicas backendId s.redis) := by
  by_cases hpos : 1 ≤ replicas.settings.breaker.failureThreshold
  swap
  · -- a threshold that is not positive is reached without a failure
    omega
  obtain ⟨-, -, hno⟩ | ⟨now, -, -, hverdict⟩ | ⟨ok, now, -, heq⟩ := h.breaker_cases backendId
  · exact absurd rfl (hno false)
  · have hrefused := hverdict false rfl
    have htracks := service_tracks replicas.settings.breaker hpos (breakerCalls backendId s.redis)
    obtain ⟨hthreshold, -⟩ | ⟨-, -, t, -, -, hgranted⟩ | ⟨-, hgranted⟩ := htracks.allow_eq now
    · exact hthreshold
    · exact absurd (hrefused.symm.trans (congrArg Prod.fst hgranted)) (by simp)
    · exact absurd (hrefused.symm.trans (congrArg Prod.fst hgranted)) (by simp)
  · exact nomatch heq

/-- Whoever reports a failure has made a call of the backend that has raised. -/
theorem failedCall_of_reported (h : Pool.Reachable (sharing replicas answers gw) w)
    (hnodup : (w.tasks.map Prod.fst).Nodup) {r : Reply (.record backendId false)}
    (hhistory : w.history = before ++ (tag, ⟨.record backendId false, r⟩) :: after) :
    FailedCall (Pool.own tag before) backendId := by
  obtain ⟨task, htask, rfl⟩ : ∃ task ∈ w.tasks, task.1 = tag :=
    List.mem_map.mp (h.mem_tags (tag, ⟨.record backendId false, r⟩) (by simp [hhistory]))
  obtain ⟨p, ⟨req, -, hstart⟩, hfollows⟩ := h.follows hnodup task htask
  have hstarts : Starts gw (.request req.model) p := by
    obtain rfl | rfl := hstart
    · exact .complete req
    · exact .stream req
  rw [hhistory, Pool.own_append, Pool.own_cons_self] at hfollows
  exact (orderly_of_follows (hstarts.orderly _) hfollows).split.failed _ rfl

/-- At this point of the history as many failures as the threshold asks for have been reported of
the backend since its last acknowledged success, each by a request one of whose calls of it has
raised. -/
structure Unhealthy (failureThreshold : Int) (backendId : Uuid) (history : List (Nat × Event)) :
    Prop where
  reported : failureThreshold ≤ failuresReported backendId history
  failed : ∀ earlier tag r later,
    history = earlier ++ (tag, ⟨.record backendId false, r⟩) :: later →
      FailedCall (Pool.own tag earlier) backendId

theorem unhealthy_of_refused (h : Pool.Reachable (sharing replicas answers gw) w)
    (hnodup : (w.tasks.map Prod.fst).Nodup)
    (hhistory : w.history = before ++ (tag, ⟨.allow backendId, .ok false⟩) :: after) :
    Unhealthy replicas.settings.breaker.failureThreshold backendId before := by
  constructor
  · obtain ⟨u, s', hu, rfl, hhandle⟩ := h.exists_performed hhistory
    exact_mod_cast (threshold_le_of_refused hhandle).trans
      (Int.ofNat_le.mpr (failures_le_reported hu backendId))
  · rintro earlier tag' r later rfl
    rw [List.append_assoc, List.cons_append] at hhistory
    exact failedCall_of_reported h hnodup hhistory

/-- In every interleaving of requests of any number of replicas, whenever a breaker refuses a
backend, at least as many failures as its threshold have been reported for that backend since
the last acknowledged success, each by a request one of whose own calls of that backend has
raised before. -/
theorem refused_after_failures (replicas : Replicas) (answers : (op : Op) → Reply op → Prop)
    (gw : RequestOrchestrator) {w : Pool Nat SharedStores Op Reply Outcome}
    (hreach : Pool.Reachable (sharing replicas answers gw) w)
    (hnodup : (w.tasks.map Prod.fst).Nodup) {before after : List (Nat × Event)} {tag : Nat}
    {backendId : Uuid}
    (hhistory : w.history = before ++ (tag, ⟨.allow backendId, .ok false⟩) :: after) :
    replicas.settings.breaker.failureThreshold ≤ failuresReported backendId before ∧
    ∀ earlier tag' r later, before = earlier ++ (tag', ⟨.record backendId false, r⟩) :: later →
      FailedCall (Pool.own tag' earlier) backendId := by
  have hunhealthy := unhealthy_of_refused hreach hnodup hhistory
  exact ⟨hunhealthy.reported, hunhealthy.failed⟩

end Runs

/-- The first request has failed at one backend; the second one skips it. -/
theorem refused_after_failures_second :
    let w := (sameRequest [0, 1]).schedule (answerStores sampleReplicas failoverAnswer)
      (List.replicate 12 0 ++ List.replicate 7 1)
    ∃ before after, w.history = before ++ (1, ⟨.allow 0, .ok false⟩) :: after ∧
      1 ≤ failuresReported 0 before ∧
      ∀ earlier tag' r later, before = earlier ++ (tag', ⟨.record 0 false, r⟩) :: later →
        FailedCall (Pool.own tag' earlier) 0 := by
  intro w
  have hrefused : w.history.any (fun e => e.1 = 1 && refuses 0 e.2) = true := by
    unfold w sameRequest handleComplete
    rw [walk_evaluates]
    decide +kernel
  obtain ⟨⟨tag, ev⟩, hmem, hev⟩ := List.any_eq_true.mp hrefused
  obtain ⟨rfl, hev⟩ : tag = 1 ∧ refuses 0 ev = true := by simpa using hev
  obtain rfl := eq_of_refuses hev
  obtain ⟨before, after, hhistory⟩ := List.append_of_mem hmem
  have hreach : Pool.Reachable (sharing sampleReplicas (fun _ _ => True) zeroDigest) w :=
    sameRequest_reachable (fun _ => trivial) _ _
  have hnodup : (w.tasks.map Prod.fst).Nodup := by
    rw [Pool.map_fst_schedule]
    decide
  obtain ⟨hthreshold, hfailed⟩ :=
    refused_after_failures sampleReplicas _ zeroDigest hreach hnodup hhistory
  exact ⟨before, after, hhistory, Int.ofNat_le.mp hthreshold, hfailed⟩

end InferenceGateway.Orchestrator
