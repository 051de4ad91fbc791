import InferenceGateway.Orchestrator.SharedStores
import InferenceGateway.Orchestrator.Upkeep
import InferenceGateway.Resilience.RateLimitSkew

/-!
# The budget of an API key across all requests

The limiter keeps its promise as long as no cost is negative. A request charges what a backend
has reported or what it finds in a cache, and the caches hold what requests have charged before.
So if no backend reports a negative usage, every cost in Redis is at least zero, and the budget
of each API key is kept through any interleaving of the requests of all replicas.
-/
namespace InferenceGateway.Orchestrator
open Library Library.Action Cache Redis Resilience Resilience.RateLimit

/-! ## What requests charge -/

/-- Backends do not report a negative usage. -/
def FairUsage : (op : Op) → Reply op → Prop
  | .complete .., r => ∀ completion, r = .ok completion →
      0 ≤ completion.tokensIn + completion.tokensOut
  | .stream .., r => ∀ events, r = .ok events → ∀ u, .usage u ∈ events →
      0 ≤ u.tokensIn + u.tokensOut
  | _, _ => True

/-- What a request may charge and store. -/
def ChargesFairly : Op → Prop
  | .reserve _ estTokens _ _ => 0 ≤ estTokens
  | .reconcile _ _ actualTokens => 0 ≤ actualTokens
  | .exactPut _ _ _ tokensIn tokensOut => 0 ≤ tokensIn + tokensOut
  | .insertEntry entry => 0 ≤ entry.tokensIn + entry.tokensOut
  | _ => True

/-- What it may rely on. -/
def FairReply : (op : Op) → Reply op → Prop
  | .exactGet .., r => ∀ hit, r = .ok (some hit) → 0 ≤ hit.tokensIn + hit.tokensOut
  | .findSimilar .., r => ∀ entry, r = .ok (some entry) → 0 ≤ entry.tokensIn + entry.tokensOut
  | op, r => FairUsage op r

abbrev fairContract : Contract := ⟨ChargesFairly, FairReply⟩

theorem fairUpkeep (gw : RequestOrchestrator) (req : ChatRequest) :
    Upkeep fairContract gw req (fun tokensIn tokensOut => 0 ≤ tokensIn + tokensOut)
      fun _ => True where
  plain op hop := by cases op <;> trivial
  reserve := Int.natCast_nonneg _
  reconcile _ _ _ hfair := hfair
  exactPut _ _ _ hfair := hfair
  insertEntry _ _ _ _ hfair := hfair
  hitRow _ _ _ _ _ := trivial
  servedRow _ _ _ _ _ _ _ := trivial
  unavailableRow _ := trivial
  exactHit _ _ hit hpromised := hpromised hit rfl
  similar _ _ entry hpromised := hpromised entry rfl
  offered _ _ _ _ _ := trivial
  completed _ _ _ completion hpromised := hpromised completion rfl
  streamed _ _ _ events hpromised := hpromised events rfl
  silent := le_rfl

/-! ## What the stores hold -/

/-- The command charges or stores nothing negative. -/
def FairCommand (json : JsonText) : Command → Prop
  | ⟨.ratelimit _, request⟩ => 0 ≤ request.call.tokens
  | ⟨.cache _, .setEx _ text _⟩ => ∃ payload, Payload.loads? json text = some payload ∧
      0 ≤ payload.tokensIn + payload.tokensOut
  | _ => True

structure FairStores (json : JsonText) (s : SharedStores) : Prop where
  redis : ∀ c ∈ s.redis, FairCommand json c
  entries : ∀ entry ∈ s.entries, 0 ≤ entry.tokensIn + entry.tokensOut

section Stores
variable {replicas : Replicas} {s s' : SharedStores} {op : Op} {r : Reply op}

theorem fairReply_error (op : Op) (e : Raised) : FairReply op (.error e) := by
  cases op <;> simp [FairReply, FairUsage]

theorem Replicas.Exchange.fairCommand {c : Command} {reply : c.1.Reply}
    (h : replicas.Exchange op c reply r) (hcharges : ChargesFairly op) :
    FairCommand replicas.json c := by
  cases h with
  | reserve => exact hcharges
  | reconcile => exact hcharges
  | exactPut => exact ⟨_, Payload.loads?_dumps replicas.json _, hcharges⟩
  | _ => trivial

/-- What L1 answers has been stored there. -/
theorem FairStores.loaded (h : FairStores replicas.json s) {rest : String} {now : Time}
    {hit : CacheHit} (hhit : replicas.loaded
      (stringKey.serve (replicas.partState (.cache rest) s.redis) (.get now)).1 =
        .ok (some hit)) : 0 ≤ hit.tokensIn + hit.tokensOut := by
  cases hstored : replicas.partState (.cache rest) s.redis with
  | none => simp [hstored, stringKey, serveString, Replicas.loaded] at hhit
  | some stored =>
    obtain ⟨t, seconds, hset⟩ := exists_setEx hstored
    obtain ⟨payload, hloads, hfair⟩ := h.redis _ (Layout.mem_callsOf.mp hset)
    by_cases hgone : stored.deadline < now
    · simp [hstored, stringKey, serveString, Replicas.loaded, hgone] at hhit
    · simp [hstored, stringKey, serveString, Replicas.loaded, hgone, hloads] at hhit
      exact hhit ▸ hfair

theorem Replicas.Exchange.fairReply {c : Command} {reply : c.1.Reply}
    (h : replicas.Exchange op c reply r) (hstores : FairStores replicas.json s)
    (hreply : reply =
      ((c.1.service replicas.settings).serve (replicas.partState c.1 s.redis) c.2).1) :
    FairReply op r := by
  cases h with
  | exactGet =>
    intro hit hhit
    rw [hreply] at hhit
    exact hstores.loaded hhit
  | _ => trivial

/-- One operation that charges and stores nothing negative finds nothing negative. -/
theorem StoresHandle.fair (h : StoresHandle replicas FairUsage s op r s')
    (hstores : FairStores replicas.json s) (hcharges : ChargesFairly op) :
    FairStores replicas.json s' ∧ FairReply op r := by
  cases h with
  | served hexchange hserve =>
    refine ⟨⟨fun c hc => ?_, hstores.entries⟩,
      hexchange.fairReply hstores (Replicas.reply_eq hserve)⟩
    obtain hold | hnew := List.mem_append.mp hc
    · exact hstores.redis c hold
    · exact List.mem_singleton.mp hnew ▸ hexchange.fairCommand hcharges
  | lost e hexchange =>
    refine ⟨⟨fun c hc => ?_, hstores.entries⟩, fairReply_error _ e⟩
    obtain hold | hnew := List.mem_append.mp hc
    · exact hstores.redis c hold
    · exact List.mem_singleton.mp hnew ▸ hexchange.fairCommand hcharges
  | failed e => exact ⟨hstores, fairReply_error _ e⟩
  | findSimilar hrows =>
    refine ⟨hstores, fun entry hentry => hstores.entries _ (hrows ?_)⟩
    exact (Persistence.SemanticCacheRepo.findSimilar_mem (Except.ok.inj hentry)).1
  | insertEntry r =>
    refine ⟨⟨hstores.redis, fun entry hentry => ?_⟩, trivial⟩
    obtain hold | hnew := List.mem_append.mp hentry
    · exact hstores.entries entry hold
    · exact List.mem_singleton.mp hnew ▸ hcharges
  | elsewhere hop hanswers =>
    refine ⟨hstores, ?_⟩
    cases op with
    | exactGet | findSimilar => simp [Op.isShared] at hop
    | _ => exact hanswers

end Stores

/-- No request charges or stores anything negative, whatever the others do. -/
def fairSharing (replicas : Replicas) (gw : RequestOrchestrator) :
    Pool.Discipline (sharing replicas FairUsage gw) where
  contract _ _ := fairContract
  result _ _ _ := True
  Inv s _ := FairStores replicas.json s
  initial := ⟨List.forall_mem_nil _, List.forall_mem_nil _⟩
  start := by
    rintro tag p ⟨req, -, rfl | rfl⟩ history
    · exact (Program.wp_map _ _).mpr
        (Program.wp_mono (fairUpkeep gw req).handleComplete.run fun _ _ _ => trivial)
    · exact (Program.wp_map _ _).mpr
        (Program.wp_mono (fairUpkeep gw req).handleStream.run fun _ _ _ => trivial)
  lasting _ _ _ _ _ _ h := h
  handle _ _ _ _ _ _ hstores hcharges hhandle := hhandle.fair hstores hcharges
  drift _ _ _ _ h := False.elim h

/-- The calls of the limiter of an API key that Redis has run. -/
def callsOfKey (apiKeyId : Uuid) (redis : List Command) : List Request :=
  Layout.callsOf (Part.ratelimit apiKeyId) redis

/-- If no backend reports a negative usage, then in every interleaving of requests of any number
of replicas each API key keeps its budget, as far as the clocks agree: at each admission the
reservations admitted in the window, shortened by twice the skew, cost no more than its budget. -/
theorem shared_budget_safe (replicas : Replicas) (gw : RequestOrchestrator)
    {w : Pool Nat SharedStores Op Reply Outcome}
    (hreach : Pool.Reachable (sharing replicas FairUsage gw) w) (apiKeyId : Uuid) {d : Time}
    (hd : 0 ≤ d)
    (hskew : (limiter (replicas.settings.apiKeys apiKeyId)).Along
      (fun past _ r => Skewed d past r) (callsOfKey apiKeyId w.state.redis)) :
    (limiter (replicas.settings.apiKeys apiKeyId)).Along
      (BudgetSafe (replicas.settings.apiKeys apiKeyId) d)
      (callsOfKey apiKeyId w.state.redis) := by
  have hstores : FairStores replicas.json w.state := ((fairSharing replicas gw).sound hreach).1
  refine (limiter _).along_of_invariant (fun past _ r => Skewed d past r ∧ 0 ≤ r.call.tokens) _
    (fun past key =>
      ∃ log, RateLimit.Guarded (replicas.settings.apiKeys apiKeyId) d past key log) ?_ ?_ ?_
    fun before r hr => ⟨hskew before r hr, ?_⟩
  · exact ⟨[], .nil, .empty, List.Subset.refl _, by simp, by simp, by simp⟩
  · rintro past key r ⟨log, h⟩ ⟨hs, hcost⟩
    obtain ⟨live, log', hlive, hmoves, hrep, hdead⟩ :=
      serve_moves _ h.represents fun _ => h.fresh hs
    exact ⟨log', h.concat hd hs hcost hlive hmoves hrep hdead⟩
  · rintro past key r ⟨log, h⟩ ⟨hs, hcost⟩ hadmitted
    obtain ⟨live, log', hlive, hmoves, hrep, hdead⟩ :=
      serve_moves _ h.represents fun _ => h.fresh hs
    have hnext := h.concat hd hs hcost hlive hmoves hrep hdead
    rw [hadmitted] at hmoves hnext ⊢
    exact hnext.budget_safe hs hmoves
  · have hmem : r ∈ callsOfKey apiKeyId w.state.redis := hr.subset (by simp)
    exact hstores.redis ⟨.ratelimit apiKeyId, r⟩ (Layout.mem_callsOf.mp hmem)

/-- The second of two equal requests finds what the first has stored. -/
theorem shared_budget_safe_two :
    let w := (sameRequest [0, 1]).schedule (answerStores sampleReplicas failoverAnswer)
      (List.replicate 12 0 ++ List.replicate 7 1)
    (limiter perMinute).Along (BudgetSafe perMinute 0)
      (callsOfKey perMinute.id w.state.redis) := by
  intro w
  have hfair : ∀ op, FairUsage op (failoverAnswer op) := fun op => by
    cases op with
    | complete client messages model =>
      obtain ⟨_ | _⟩ := client <;> simp [FairUsage, failoverAnswer]
    | stream client messages model => simp [FairUsage, failoverAnswer]
    | _ => trivial
  have hskew : (limiter perMinute).Along (fun past _ r => Skewed 0 past r)
      (callsOfKey perMinute.id w.state.redis) := by
    unfold w sameRequest handleComplete
    rw [walk_evaluates]
    decide +kernel
  exact shared_budget_safe sampleReplicas zeroDigest (sameRequest_reachable hfair _ _)
    perMinute.id le_rfl hskew

end InferenceGateway.Orchestrator
