import InferenceGateway.Orchestrator.Rules

/-!
# What an onlooker sees of a request

`seen` picks the operations that matter to failover and streaming out of a trace: the
choices of the policy, the breaker's answers and records, the calls, the reads of a stream,
what is yielded and what is written to the cache. Under `Ordinary` answers everything else
returns and is not seen; `Sees` and `Returns` are the weakest precondition in these terms.
-/
namespace InferenceGateway.Orchestrator
open Library Library.Action

inductive Observation where
  | selected (backend : Backend)
  | allowed (backendId : Uuid) (verdict : Bool)
  | called (client : Client) (model : String) (reply : Except Raised Completion)
  | opened (client : Client) (model : String) (reply : Except Raised (List StreamEvent))
  | pulled (client : Client) (reply : Except Raised Unit)
  | recorded (backendId : Uuid) (ok : Bool)
  | emitted (event : Yielded)
  | stored (tier : CacheTier) (content : String)

def seen : Event → Option Observation
  | ⟨.select _ _, .ok backend⟩ => some (.selected backend)
  | ⟨.allow backendId, .ok verdict⟩ => some (.allowed backendId verdict)
  | ⟨.complete client _ model, reply⟩ => some (.called client model reply)
  | ⟨.stream client _ model, reply⟩ => some (.opened client model reply)
  | ⟨.anext client, reply⟩ => some (.pulled client reply)
  | ⟨.record backendId ok, _⟩ => some (.recorded backendId ok)
  | ⟨.emit event, _⟩ => some (.emitted event)
  | ⟨.exactPut _ _ content _ _, _⟩ => some (.stored .l1 content)
  | ⟨.insertEntry entry, _⟩ => some (.stored .l2 entry.response)
  | _ => none

/-- What is left open about the world around a request: the candidates that the registry
offers, what the policy may answer, and what calls and streams may raise. -/
structure Surroundings where
  candidates : List (Backend × Client)
  choice : List Backend → Except Raised Backend → Prop
  failure : Raised → Prop

/-- The answers to an admitted request that misses the cache: calls and streams may raise
at any point, and apart from the policy nothing else raises. -/
def Ordinary (env : Surroundings) : (op : Op) → Reply op → Prop
  | .reserve .., reply => ∃ reservation, reply = .ok (some reservation)
  | .exactGet .., reply => reply = .ok none
  | .findSimilar .., reply => reply = .ok none
  | .candidates _, reply => reply = .ok env.candidates
  | .select offered _, reply => env.choice offered reply
  | .complete .., reply => ∀ e, reply = .error e → env.failure e
  | .stream .., reply => ∀ e, reply = .error e → env.failure e
  | .anext _, reply => ∀ e, reply = .error e → env.failure e
  | _, reply => ∃ a, reply = .ok a

abbrev ordinary (env : Surroundings) : Contract := .expecting (Ordinary env)

variable {env : Surroundings} {α β : Type}

/-- Under ordinary answers, what is seen of the action and how it ends are related. -/
def Sees (env : Surroundings) (x : Action α)
    (Q : List Observation → Except Raised α → Prop) : Prop :=
  wp (ordinary env) x fun trace r => Q (trace.filterMap seen) r

/-- Under ordinary answers the action returns, and what is seen of it and its result are
related. -/
def Returns (env : Surroundings) (x : Action α)
    (R : List Observation → α → Prop) : Prop :=
  Sees env x fun shown r => ∃ a, r = .ok a ∧ R shown a

/-- The action returns and nothing is seen of it. -/
abbrev Quiet (env : Surroundings) (x : Action α) : Prop :=
  Returns env x fun shown _ => shown = []

section Rules
variable {x : Action α} {f : α → Action β} {R : List Observation → α → Prop}
  {R' : List Observation → β → Prop} {Q : List Observation → Except Raised β → Prop}

theorem Sees.mono {Q Q' : List Observation → Except Raised α → Prop} (h : Sees env x Q)
    (hQ : ∀ shown r, Q shown r → Q' shown r) : Sees env x Q' :=
  wp_mono h fun _ _ => hQ _ _

theorem Sees.throw {Q : List Observation → Except Raised α → Prop} {e : Raised}
    (h : Q [] (.error e)) : Sees env (throw e) Q := h

theorem Returns.pure {a : α} (h : R [] a) : Returns env (pure a) R := ⟨a, rfl, h⟩

theorem Returns.mono (h : Returns env x R) {R₂ : List Observation → α → Prop}
    (hR : ∀ shown a, R shown a → R₂ shown a) : Returns env x R₂ :=
  Sees.mono h fun _ _ ⟨a, ha, hr⟩ => ⟨a, ha, hR _ a hr⟩

theorem Returns.sees_bind (hx : Returns env x R)
    (hf : ∀ shown a, R shown a → Sees env (f a) fun shown' r => Q (shown ++ shown') r) :
    Sees env (x >>= f) Q := by
  refine (wp_bind _).mpr (wp_mono hx ?_)
  rintro trace r ⟨a, rfl, hr⟩
  refine wp_mono (hf _ a hr) fun trace' r' hr' => ?_
  rwa [List.filterMap_append]

theorem Returns.bind (hx : Returns env x R)
    (hf : ∀ shown a, R shown a → Returns env (f a) fun shown' b => R' (shown ++ shown') b) :
    Returns env (x >>= f) R' := hx.sees_bind hf

theorem Quiet.sees_bind (hx : Quiet env x) (hf : ∀ a, Sees env (f a) Q) :
    Sees env (x >>= f) Q :=
  Returns.sees_bind hx fun shown a hshown => by
    subst hshown
    exact hf a

theorem Quiet.bind (hx : Quiet env x) (hf : ∀ a, Returns env (f a) R') :
    Returns env (x >>= f) R' := hx.sees_bind hf

theorem Returns.call {op : Op} {R : List Observation → Ret op → Prop}
    (h : ∀ reply : Reply op, Ordinary env op reply →
      ∃ a, reply = .ok a ∧ R ([⟨op, reply⟩].filterMap seen) a) :
    Returns env (call op) R := by
  unfold Returns Sees
  exact (wp_call _ _).mpr ⟨trivial, h⟩

theorem Quiet.call {op : Op}
    (h : ∀ reply : Reply op, Ordinary env op reply → ∃ a, reply = .ok a)
    (hseen : ∀ reply : Reply op, seen ⟨op, reply⟩ = none) : Quiet env (call op) :=
  Returns.call fun reply hreply =>
    have ⟨a, ha⟩ := h reply hreply
    ⟨a, ha, by rw [List.filterMap_cons_none (hseen reply), List.filterMap_nil]⟩

theorem Returns.attempt {R : List Observation → Except Raised α → Prop}
    (h : Sees env x R) : Returns env (Library.Action.attempt x) R :=
  (wp_attempt _).mpr (wp_mono h fun _ r hr => ⟨r, rfl, hr⟩)

end Rules

/-! ## The parts of the pipeline -/

section Parts
variable (gw : RequestOrchestrator) (req : ChatRequest)

theorem quiet_perfCounter : Quiet env (call .perfCounter) :=
  Quiet.call (fun _ h => h) fun _ => rfl

theorem quiet_incr (metric : String) (labels : List (String × String)) :
    Quiet env (incr gw metric labels) := by
  unfold incr
  split
  · exact Quiet.call (fun _ h => h) fun _ => rfl
  · exact Returns.pure rfl

theorem quiet_observe (metric : String) (value : ℚ) (labels : List (String × String)) :
    Quiet env (observe gw metric value labels) := by
  unfold observe
  split
  · exact Quiet.call (fun _ h => h) fun _ => rfl
  · exact Returns.pure rfl

theorem quiet_latencyRecord (backendId : Uuid) (latency : Int) :
    Quiet env (latencyRecord backendId latency) := by
  unfold latencyRecord
  refine Quiet.bind (Quiet.call (fun _ h => h) fun _ => rfl) fun _ => ?_
  exact Quiet.call (fun _ h => h) fun _ => rfl

/-- The reservation is admitted. -/
theorem returns_reserve (apiKeyId : Uuid) (estTokens budget windowSeconds : Int) :
    Returns env (call (.reserve apiKeyId estTokens budget windowSeconds))
      fun shown reservation => shown = [] ∧ ∃ id, reservation = some id :=
  Returns.call fun _ ⟨id, h⟩ => ⟨some id, h, rfl, id, rfl⟩

theorem returns_candidates (model : String) :
    Returns env (call (.candidates model)) fun shown offered =>
      shown = [] ∧ offered = env.candidates :=
  Returns.call fun _ h => ⟨env.candidates, h, by simp [seen], rfl⟩

theorem returns_record (backendId : Uuid) (ok : Bool) :
    Returns env (call (.record backendId ok)) fun shown _ => shown = [.recorded backendId ok] :=
  Returns.call fun _ ⟨a, h⟩ => ⟨a, h, rfl⟩

/-- The lookup misses. -/
theorem returns_lookup : Returns env (lookup gw req) fun shown hit => shown = [] ∧ hit = none := by
  unfold lookup
  split
  · exact Returns.pure ⟨rfl, rfl⟩
  · refine Returns.bind (R := fun shown hit => shown = [] ∧ hit = none) ?_ ?_
    · exact Returns.call fun reply hreply => ⟨none, hreply, by simp [seen], rfl⟩
    · rintro _ _ ⟨rfl, rfl⟩
      refine Quiet.bind (Quiet.call (fun _ h => h) fun _ => rfl) fun embedding => ?_
      cases embedding with
      | none => exact Returns.pure ⟨rfl, rfl⟩
      | some embedding =>
        refine Returns.bind (R := fun shown entry => shown = [] ∧ entry = none) ?_ ?_
        · exact Returns.call fun reply hreply => ⟨none, hreply, by simp [seen], rfl⟩
        · rintro _ _ ⟨rfl, rfl⟩
          exact Returns.pure ⟨rfl, rfl⟩

/-- The tiers an answer is written to: none on bypass, else L1, and L2 if there are
embeddings. -/
def Written (bypassCache : Bool) (tiers : List CacheTier) : Prop :=
  if bypassCache then tiers = [] else tiers = [.l1] ∨ tiers = [.l1, .l2]

theorem returns_store (content : String) (tokensIn tokensOut : Int) :
    Returns env (store gw req content tokensIn tokensOut) fun shown _ =>
      ∃ tiers, Written req.bypassCache tiers ∧ shown = tiers.map (.stored · content) := by
  unfold store
  split
  · rename_i hbypass
    exact Returns.pure ⟨[], by simp [Written, hbypass], rfl⟩
  · rename_i hbypass
    refine Returns.bind (R := fun shown _ => shown = [.stored .l1 content]) ?_ ?_
    · exact Returns.call fun reply ⟨a, ha⟩ => ⟨a, ha, rfl⟩
    · rintro _ _ rfl
      refine Quiet.bind (Quiet.call (fun _ h => h) fun _ => rfl) fun embedding => ?_
      cases embedding with
      | none => exact Returns.pure ⟨[.l1], by simp [Written, hbypass], rfl⟩
      | some embedding =>
        exact Returns.call fun reply ⟨a, ha⟩ =>
          ⟨a, ha, [.l1, .l2], by simp [Written, hbypass], rfl⟩

/-- After a successful call a success is recorded and the answer written back. -/
theorem returns_settle (start : Time) (reservation : Resilience.RateLimit.ReservationId)
    (backend : Backend) (content : String) (tokensIn tokensOut : Int)
    (finishReason : Option String) :
    Returns env
      (settle gw req start reservation backend content tokensIn tokensOut finishReason)
      fun shown _ => ∃ tiers, Written req.bypassCache tiers ∧
        shown = .recorded backend.id true :: tiers.map (.stored · content) := by
  unfold settle
  refine quiet_perfCounter.bind fun now => ?_
  apply (returns_record backend.id true).bind
  intro shown u hshown
  subst hshown
  refine (quiet_latencyRecord _ _).bind fun _ => ?_
  apply (returns_store gw req content tokensIn tokensOut).bind
  intro shown u h
  obtain ⟨tiers, hwritten, rfl⟩ := h
  refine Quiet.bind (Quiet.call (fun _ h => h) fun _ => rfl) fun _ => ?_
  refine Quiet.bind (Quiet.call (fun _ h => h) fun _ => rfl) fun _ => ?_
  exact Returns.pure ⟨tiers, hwritten, by simp⟩

theorem quiet_logUnavailable (start : Time) : Quiet env (logUnavailable req start) :=
  quiet_perfCounter.bind fun _ => Quiet.call (fun _ h => h) fun _ => rfl

end Parts

/-! ## An example -/

/-- Two candidates, of which the first one raises whenever it is called. -/
def brokenAndHealthy : List (Backend × Client) :=
  [(⟨0, "broken", .ollama, "e", "m", 100, true, 0, 0⟩, ⟨0⟩),
   (⟨1, "healthy", .ollama, "e", "m", 200, true, 0, 0⟩, ⟨1⟩)]

/-- Answers to a request for these candidates, with a policy that takes the first one. -/
def failoverAnswer : (op : Op) → Reply op
  | .reserve .. => .ok (some Resilience.RateLimit.idA)
  | .exactGet .. => .ok none
  | .embed _ => .ok none
  | .findSimilar .. => .ok none
  | .candidates _ => .ok brokenAndHealthy
  | .select [] _ => .error (.failure "list index out of range")
  | .select (b :: _) _ => .ok b
  | .allow _ => .ok true
  | .complete ⟨0⟩ _ _ => .error (.failure "down")
  | .complete .. => .ok ⟨"ok", 1, 1⟩
  | .stream .. => .ok [.usage ⟨1, 2, some "length"⟩, .text "", .text "ok"]
  | .anext ⟨0⟩ => .error (.failure "down")
  | .perfCounter => .ok 0
  | .listBackends => .ok (brokenAndHealthy.map Prod.fst)
  | .upsert _ => .ok ⟨0, "broken", .ollama, "e", "m", 100, true, 0, 0⟩
  | .install _ => .ok []
  | .reconcile .. | .exactPut .. | .insertEntry _ | .record .. | .acquire _ | .release _ | .anext _
  | .emit _ | .lpush .. | .ltrim _ | .insertLog _ | .incr .. | .observe .. | .closeSession
  | .aclose _ => .ok ()

/-- The same when no backend completes anything. -/
def outageAnswer : (op : Op) → Reply op
  | .complete .. => .error (.failure "down")
  | op => failoverAnswer op

def hiRequest : ChatRequest := ⟨Resilience.RateLimit.perMinute, "m", [⟨.user, "hi"⟩], false⟩

theorem ordinary_failoverAnswer {env : Surroundings}
    (hcandidates : env.candidates = brokenAndHealthy)
    (hchoice : ∀ offered features, env.choice offered (failoverAnswer (.select offered features)))
    (hfailure : env.failure (.failure "down")) (op : Op) : Ordinary env op (failoverAnswer op) := by
  cases op with
  | select offered features => exact hchoice offered features
  | candidates model => exact congrArg Except.ok hcandidates.symm
  | complete client messages model =>
    intro e he
    obtain ⟨_ | _⟩ := client
    · obtain rfl := Except.error.inj he
      exact hfailure
    · simp [failoverAnswer] at he
  | anext client =>
    intro e he
    obtain ⟨_ | _⟩ := client
    · obtain rfl := Except.error.inj he
      exact hfailure
    · simp [failoverAnswer] at he
  | stream client messages model => simp [Ordinary, failoverAnswer]
  | _ => simp [Ordinary, failoverAnswer]

end InferenceGateway.Orchestrator
