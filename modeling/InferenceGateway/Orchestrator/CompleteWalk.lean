import InferenceGateway.Orchestrator.Failover

/-!
# The walk of a completion

`handle_complete` tries its candidates one after the other, each at most once: it asks the
breaker of each one it selects, calls the backend exactly if it may, records the outcome
of the call, and returns the first answer it gets.
-/
namespace InferenceGateway.Orchestrator
open Library Library.Action

/-- What came of an admitted candidate: its call raised, or it answered and the answer was
written to these tiers. -/
inductive CallVerdict where
  | failed (e : Raised)
  | succeeded (completion : Completion) (tiers : List CacheTier)

def liveResult (backend : Backend) (completion : Completion) : CompletionResult :=
  ⟨completion.content, backend.model, completion.tokensIn, completion.tokensOut, some "stop",
    none, some backend.name⟩

/-- The protocol of `handle_complete`. -/
def completeProtocol (bypassCache : Bool) : Protocol CallVerdict CompletionResult where
  after backend client
    | .failed e => [.called client backend.model (.error e), .recorded backend.id false]
    | .succeeded completion tiers =>
        [.called client backend.model (.ok completion), .recorded backend.id true] ++
          tiers.map (.stored · completion.content)
  ends backend
    | .failed _ => none
    | .succeeded completion _ => some (.ok (liveResult backend completion))
  next
    | .failed e => some e
    | .succeeded .. => none
  valid
    | .failed _ => True
    | .succeeded _ tiers => Written bypassCache tiers

/-- The candidate was refused by its breaker, or called and failed. -/
def Attempt.Unsuccessful (a : Attempt CallVerdict) : Prop :=
  a.verdict = none ∨ ∃ e, a.verdict = some (.failed e)

theorem outcome_eq_none {bypassCache : Bool} {a : Attempt CallVerdict} :
    (completeProtocol bypassCache).outcome a = none ↔ a.Unsuccessful := by
  obtain ⟨backend, client, _ | _ | _⟩ := a <;>
    simp [Protocol.outcome, completeProtocol, Attempt.Unsuccessful]

theorem outcome_eq_some {bypassCache : Bool} {a : Attempt CallVerdict}
    {r : Except Raised CompletionResult} :
    (completeProtocol bypassCache).outcome a = some r ↔
      ∃ completion tiers, a.verdict = some (.succeeded completion tiers) ∧
        r = .ok (liveResult a.backend completion) := by
  obtain ⟨backend, client, _ | _ | _⟩ := a <;>
    simp [Protocol.outcome, completeProtocol, eq_comm]

/-- The policy returns a member of every non-empty list, and nothing is cancelled. -/
def Surroundings.uncancelled (candidates : List (Backend × Client)) : Surroundings where
  candidates
  choice offered reply := offered ≠ [] → ∃ chosen ∈ offered, reply = .ok chosen
  failure e := e.isException = true

section Body
variable (gw : RequestOrchestrator) (req : ChatRequest) {candidates : List (Backend × Client)}

/-- The call is made once, inside the semaphore, and raises only exceptions. -/
theorem returns_call (backendId : Uuid) (client : Client) (model : String) :
    Returns (.uncancelled candidates) (Library.Action.attempt (withSemaphore backendId
      (call (.complete client req.messages model)))) fun shown r =>
        shown = [.called client model r] ∧ ∀ e, r = .error e → e.isException = true := by
  refine Returns.attempt (wp_withSemaphore trivial trivial ?_ ?_)
  · rintro e ⟨_, heq⟩
    exact absurd heq (by simp)
  · rintro u -
    refine (wp_call _ _).mpr ⟨trivial, fun r hr => ?_⟩
    rintro _ ⟨v, rfl⟩
    exact ⟨rfl, hr⟩

theorem completeWith_follows (start : Time)
    (reservation : Resilience.RateLimit.ReservationId) :
    Follows (completeProtocol req.bypassCache) (.uncancelled candidates)
      (completeWith gw req start reservation) := by
  intro backend client
  unfold completeWith
  apply (returns_call req _ _ _).sees_bind
  intro shown r h
  obtain ⟨rfl, hexception⟩ := h
  cases r with
  | error e =>
    dsimp only
    rw [if_pos (hexception e rfl)]
    apply (returns_record backend.id false).sees_bind
    intro shown u hshown
    subst hshown
    refine (quiet_incr gw _ _).sees_bind fun _ => ?_
    exact ⟨.failed e, trivial, rfl, rfl, rfl⟩
  | ok completion =>
    refine (returns_settle gw req start reservation backend completion.content completion.tokensIn
      completion.tokensOut (some "stop")).sees_bind ?_
    rintro _ latency ⟨tiers, hwritten, rfl⟩
    refine (quiet_incr gw _ _).sees_bind fun _ => ?_
    refine (quiet_observe gw _ _ _).sees_bind fun _ => ?_
    exact ⟨.succeeded completion tiers, hwritten, by simp [completeProtocol], rfl⟩

/-- An admitted request that misses the cache walks its candidates. -/
theorem handleComplete_walks (hne : candidates ≠ []) (hids : (ids candidates).Nodup) :
    Sees (.uncancelled candidates) (handleComplete gw req) fun shown r =>
      ∃ attempts, Walked (completeProtocol req.bypassCache) candidates none shown r attempts := by
  unfold handleComplete
  refine quiet_perfCounter.sees_bind fun start => ?_
  apply (returns_reserve _ _ _ _).sees_bind
  intro shown reserved h
  obtain ⟨rfl, reservation, rfl⟩ := h
  apply (returns_lookup gw req).sees_bind
  intro shown hit h
  obtain ⟨rfl, rfl⟩ := h
  apply (returns_candidates req.model).sees_bind
  intro shown offered h
  obtain ⟨rfl, hoffered⟩ := h
  obtain rfl : candidates = offered := hoffered.symm
  rw [if_neg hne]
  have hmember : ∀ offered reply, offered ≠ [] →
      (Surroundings.uncancelled candidates).choice offered reply →
      ∃ chosen ∈ offered, reply = .ok chosen := fun _ _ hne hreply => hreply hne
  refine walk_walked hmember (completeWith_follows gw req start reservation) (fun err => ?_) hids
    none
  refine (quiet_logUnavailable req start).sees_bind fun _ => ?_
  exact (quiet_incr gw _ _).sees_bind fun _ => Sees.throw ⟨rfl, rfl⟩

end Body

/-- The failover walk of `handle_complete`. For every list of candidates with distinct ids,
every policy that returns members, every answer of the breakers and every outcome of the
calls: what is seen is a list of attempts, no candidate twice, each one that is selected
asking its breaker once, called exactly if allowed, and each call followed by one record
of its outcome. The result is that of the first attempt that succeeds, and
`AllBackendsUnavailable` is raised exactly if all candidates were tried in vain. Both
routing policies return members. -/
theorem failover_complete (gw : RequestOrchestrator) (req : ChatRequest)
    (candidates : List (Backend × Client)) (hne : candidates ≠ []) (hids : (ids candidates).Nodup)
    (answer : List Event → (op : Op) → Reply op)
    (hanswer : ∀ past op, Ordinary (.uncancelled candidates) op (answer past op)) :
    let run := Program.run answer [] (handleComplete gw req).run
    (∃ attempts : List (Attempt CallVerdict),
      run.1.filterMap seen = attempts.flatMap (completeProtocol req.bypassCache).shown ∧
      attempts.length ≤ candidates.length ∧
      (ids (attempts.map Attempt.pair)).Nodup ∧
      (∀ a ∈ attempts, a.pair ∈ candidates) ∧
      (∀ result, run.2 = .ok result ↔ ∃ before a completion tiers, attempts = before ++ [a] ∧
        (∀ b ∈ before, b.Unsuccessful) ∧ a.verdict = some (.succeeded completion tiers) ∧
        result = liveResult a.backend completion) ∧
      ((∃ e, run.2 = .error (.allBackendsUnavailable e)) ↔
        (attempts.map Attempt.pair).Perm candidates ∧ ∀ a ∈ attempts, a.Unsuccessful) ∧
      ((∃ result, run.2 = .ok result) ∨ ∃ e, run.2 = .error (.allBackendsUnavailable e))) ∧
    ∀ offered : List Backend, offered ≠ [] →
      (∀ (policy : Routing.CostTieredPolicy) (complexity : ℚ),
        ∃ b ∈ offered, policy.select offered complexity = some b) ∧
      ∀ p95, ∃ b ∈ offered, Routing.latencyAwareSelect p95 offered = some b := by
  intro run
  refine ⟨?_, fun offered hoffered => ⟨fun policy => policy.select_mem hoffered,
    fun p95 => Routing.latencyAwareSelect_mem p95 hoffered⟩⟩
  obtain ⟨attempts, h⟩ : ∃ attempts, Walked (completeProtocol req.bypassCache) candidates none
      (run.1.filterMap seen) run.2 attempts :=
    Program.wp_run (handleComplete_walks gw req hne hids) hanswer []
  refine ⟨attempts, h.shown_eq, h.length_le, h.once, h.offered, ?_⟩
  obtain ⟨before, a, rfl, hbefore, hlast⟩ | ⟨hnone, hperm, hresult⟩ := h.ending
  · obtain ⟨completion, tiers, hverdict, hresult⟩ := outcome_eq_some.mp hlast
    have hsuccess : ¬ a.Unsuccessful := fun hun => by
      simp [outcome_eq_none.mpr hun] at hlast
    rw [hresult]
    refine ⟨fun r => ?_, iff_of_false (by simp) ?_, .inl ⟨_, rfl⟩⟩
    · constructor
      · intro hr
        exact ⟨before, a, completion, tiers, rfl, fun b hb => outcome_eq_none.mp (hbefore b hb),
          hverdict, (Except.ok.inj hr).symm⟩
      · rintro ⟨before', a', completion', tiers', hsplit, -, hverdict', rfl⟩
        obtain ⟨-, hsame⟩ := List.append_inj' hsplit rfl
        obtain rfl := List.singleton_inj.mp hsame
        obtain ⟨rfl, -⟩ := CallVerdict.succeeded.inj
          (Option.some.inj (hverdict.symm.trans hverdict'))
        rfl
    · rintro ⟨-, hall⟩
      exact hsuccess (hall a (List.mem_append_right _ (List.mem_singleton_self a)))
  · have hall : ∀ a ∈ attempts, a.Unsuccessful := fun a ha => outcome_eq_none.mp (hnone a ha)
    rw [hresult]
    refine ⟨fun r => iff_of_false (by simp) ?_, iff_of_true ⟨_, rfl⟩ ⟨hperm, hall⟩,
      .inr ⟨_, rfl⟩⟩
    rintro ⟨before, a, completion, tiers, rfl, -, hverdict, -⟩
    obtain hrej | ⟨e, hfail⟩ := hall a (List.mem_append_right _ (List.mem_singleton_self a))
    · exact absurd (hverdict.symm.trans hrej) (by simp)
    · exact absurd (hverdict.symm.trans hfail) (by simp)

theorem ordinary_uncancelled (op : Op) :
    Ordinary (.uncancelled brokenAndHealthy) op (failoverAnswer op) := by
  refine ordinary_failoverAnswer rfl (fun offered _ hne => ?_) rfl op
  obtain ⟨b, rest, rfl⟩ := List.exists_cons_of_ne_nil hne
  exact ⟨b, List.mem_cons_self, rfl⟩

theorem failover_complete_healthy :
    let run := Program.run (fun _ => failoverAnswer) []
      (handleComplete ⟨false, fun _ => "digest"⟩ hiRequest).run
    ∃ attempts : List (Attempt CallVerdict),
      run.1.filterMap seen = attempts.flatMap (completeProtocol false).shown ∧
      attempts.length ≤ 2 ∧ (ids (attempts.map Attempt.pair)).Nodup := by
  obtain ⟨⟨attempts, hshown, hlength, honce, -⟩, -⟩ :=
    failover_complete ⟨false, fun _ => "digest"⟩ hiRequest brokenAndHealthy (by decide) (by decide)
      (fun _ => failoverAnswer) (fun _ => ordinary_uncancelled)
  exact ⟨attempts, hshown, hlength, honce⟩

end InferenceGateway.Orchestrator
