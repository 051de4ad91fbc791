import InferenceGateway.Orchestrator.Evaluation
import InferenceGateway.Orchestrator.Rules
import InferenceGateway.Orchestrator.StreamWalk
import InferenceGateway.Orchestrator.World

/-!
# Where answers come from

Whatever is in the caches or on its way to a client has been produced by a call of a
backend for the model it is filed under. Each request works under a contract: it may
write and yield what has been produced for its model, and it may rely on what it reads.
The digests have a fixed length, so an L1 key tells the model, however the digests
collide; the semantic tier filters by model; and a reload groups the backends by model.
-/
namespace InferenceGateway.Orchestrator
open Library Library.Action Backends Cache Persistence Redis

/-! ## Provenance -/

/-- A call for this model has returned this content. -/
inductive Produced (h : History) (model content : String) : Prop
  | completed {purpose : Purpose} {client : Client} {messages : List ChatMessage}
      {completion : Completion}
      (hmem : (purpose, ⟨.complete client messages model, .ok completion⟩) ∈ h)
      (hcontent : completion.content = content)
  | streamed {purpose : Purpose} {client : Client} {messages : List ChatMessage}
      {events : List StreamEvent}
      (hmem : (purpose, ⟨.stream client messages model, .ok events⟩) ∈ h)
      (hcontent : String.join (texts events) = content)

/-- A stream for this model has sent this text. -/
def Sent (h : History) (model chunk : String) : Prop :=
  ∃ (purpose : Purpose) (client : Client) (messages : List ChatMessage)
    (events : List StreamEvent),
    (purpose, ⟨.stream client messages model, .ok events⟩) ∈ h ∧ chunk ∈ texts events

/-- The result names the model, and a call for the model has produced its content. -/
structure ServedBy (h : History) (model : String) (r : CompletionResult) : Prop where
  model_eq : r.model = model
  produced : Produced h model r.content

/-- What may be yielded to the client of a request for this model. -/
def Delivered (h : History) (model : String) : Yielded → Prop
  | .text chunk => Produced h model chunk ∨ Sent h model chunk
  | .result r => ServedBy h model r

section Later
variable {h h' : History} {model content : String}

theorem Produced.later (hp : Produced h model content) (hle : h ⊆ h') :
    Produced h' model content := by
  cases hp with
  | completed hmem hcontent => exact .completed (hle hmem) hcontent
  | streamed hmem hcontent => exact .streamed (hle hmem) hcontent

theorem Sent.later (hs : Sent h model content) (hle : h ⊆ h') : Sent h' model content := by
  obtain ⟨purpose, client, messages, events, hmem, hchunk⟩ := hs
  exact ⟨purpose, client, messages, events, hle hmem, hchunk⟩

theorem ServedBy.later {r : CompletionResult} (hr : ServedBy h model r) (hle : h ⊆ h') :
    ServedBy h' model r := ⟨hr.model_eq, hr.produced.later hle⟩

theorem Delivered.later {event : Yielded} (hd : Delivered h model event) (hle : h ⊆ h') :
    Delivered h' model event := by
  cases event with
  | text chunk => exact hd.imp (·.later hle) (·.later hle)
  | result r => exact ServedBy.later hd hle

end Later

/-! ## The contract of a request -/

/-- What a task may do: read L1 under a digest, write what has been produced for the
model it is filed under, and yield what has been produced for its own model. -/
def Allowed (purpose : Purpose) (h : History) : Op → Prop
  | .exactGet _ promptHash => promptHash.length = 64
  | .exactPut model promptHash content _ _ => promptHash.length = 64 ∧ Produced h model content
  | .insertEntry entry => Produced h entry.model entry.response
  | .emit event => ∃ model, purpose = .request model ∧ Delivered h model event
  | _ => True

/-- What it may rely on. -/
def Promised (h : History) : (op : Op) → Reply op → Prop
  | .exactGet model _, r => ∀ hit, r = .ok (some hit) → Produced h model hit.content
  | .findSimilar model _, r =>
      ∀ entry, r = .ok (some entry) → Produced h model entry.response
  | .candidates model, r => ∀ pairs, r = .ok pairs → ∀ pair ∈ pairs, pair.1.model = model
  | .complete _ _ model, r => ∀ completion, r = .ok completion → Produced h model completion.content
  | .stream _ _ model, r => ∀ events, r = .ok events →
      Produced h model (String.join (texts events)) ∧ ∀ chunk ∈ texts events, Sent h model chunk
  | _, _ => True

abbrev provenanceContract (purpose : Purpose) (h : History) : Contract :=
  ⟨Allowed purpose h, Promised h⟩

/-- If the action returns then its result is as said. -/
def Ensures {α : Type} (purpose : Purpose) (h : History) (x : Action α) (R : α → Prop) : Prop :=
  wp (provenanceContract purpose h) x fun _ r => ∀ a, r = .ok a → R a

section Rules
variable {α β : Type} {purpose : Purpose} {h : History} {x : Action α} {f : α → Action β}
  {R : α → Prop} {R' : β → Prop}

theorem Ensures.mono {R₂ : α → Prop} (hx : Ensures purpose h x R) (hR : ∀ a, R a → R₂ a) :
    Ensures purpose h x R₂ := wp_mono hx fun _ _ hr a ha => hR a (hr a ha)

theorem Ensures.pure {a : α} (ha : R a) : Ensures purpose h (pure a) R :=
  fun _ heq => Except.ok.inj heq ▸ ha

theorem Ensures.throw {e : Raised} : Ensures purpose h (throw e) R := fun _ heq => nomatch heq

theorem Ensures.bind (hx : Ensures purpose h x R) (hf : ∀ a, R a → Ensures purpose h (f a) R') :
    Ensures purpose h (x >>= f) R' := by
  refine (wp_bind _).mpr (wp_mono hx fun trace r hr => ?_)
  cases r with
  | ok a => exact hf a (hr a rfl)
  | error e => exact fun _ heq => nomatch heq

theorem Ensures.call {op : Op} {R : Ret op → Prop} (hallowed : Allowed purpose h op)
    (hpromised : ∀ a, Promised h op (.ok a) → R a) : Ensures purpose h (call op) R :=
  (wp_call _ _).mpr ⟨hallowed, fun _ hr a ha => hpromised a (ha ▸ hr)⟩

/-- One operation: what it promises can be used in the rest. -/
theorem Ensures.perform {op : Op} {f : Ret op → Action β} (hallowed : Allowed purpose h op)
    (hf : ∀ a, Promised h op (.ok a) → Ensures purpose h (f a) R') :
    Ensures purpose h (Orchestrator.call op >>= f) R' :=
  Ensures.bind (Ensures.call hallowed fun _ ha => ha) hf

theorem Ensures.attempt (hx : Ensures purpose h x R) :
    Ensures purpose h (Library.Action.attempt x) fun r => ∀ a, r = .ok a → R a :=
  (wp_attempt _).mpr (wp_mono hx fun _ _ hr _ heq => Except.ok.inj heq ▸ hr)

/-- One operation whose exceptions are looked at. -/
theorem Ensures.perform_attempt {op : Op} {f : Reply op → Action β}
    (hallowed : Allowed purpose h op)
    (hf : ∀ r, Promised h op r → Ensures purpose h (f r) R') :
    Ensures purpose h (Library.Action.attempt (Orchestrator.call op) >>= f) R' :=
  wp_attempt_bind hallowed hf

end Rules

/-! ## The requests keep the contract -/

section Parts
variable {purpose : Purpose} {h : History} (gw : RequestOrchestrator) (req : ChatRequest)

theorem ensures_call {op : Op} (hallowed : Allowed purpose h op) :
    Ensures purpose h (call op) fun _ => True := Ensures.call hallowed fun _ _ => trivial

theorem ensures_incr (metric : String) (labels : List (String × String)) :
    Ensures purpose h (incr gw metric labels) fun _ => True := by
  unfold incr
  split
  · exact ensures_call trivial
  · exact Ensures.pure trivial

theorem ensures_observe (metric : String) (value : ℚ) (labels : List (String × String)) :
    Ensures purpose h (observe gw metric value labels) fun _ => True := by
  unfold observe
  split
  · exact ensures_call trivial
  · exact Ensures.pure trivial

theorem ensures_latencyRecord (backendId : Uuid) (latency : Int) :
    Ensures purpose h (latencyRecord backendId latency) fun _ => True :=
  Ensures.perform trivial fun _ _ => ensures_call trivial

theorem ensures_logUnavailable (start : Time) :
    Ensures purpose h (logUnavailable req start) fun _ => True :=
  Ensures.perform trivial fun _ _ => ensures_call trivial

theorem ensures_chargeHit (start : Time) (reservation : Resilience.RateLimit.ReservationId)
    (hit : CacheHit) : Ensures purpose h (chargeHit gw req start reservation hit) fun _ => True :=
  Ensures.perform trivial fun _ _ => Ensures.perform trivial fun _ _ =>
    Ensures.perform trivial fun _ _ => ensures_incr gw _ _

theorem ensures_withSemaphore {α : Type} {R : α → Prop} {backendId : Uuid} {body : Action α}
    (hbody : Ensures purpose h body R) : Ensures purpose h (withSemaphore backendId body) R := by
  refine Ensures.perform trivial fun _ _ => hbody.attempt.bind fun outcome houtcome => ?_
  refine Ensures.perform trivial fun _ _ => ?_
  cases outcome with
  | ok a => exact Ensures.pure (houtcome a rfl)
  | error e => exact Ensures.throw

variable (hdigest : ∀ bytes, (gw.sha256 bytes).length = 64)
include hdigest

/-- A hit has been produced for the model of the request. -/
theorem ensures_lookup : Ensures purpose h (lookup gw req) fun hit =>
    ∀ x, hit = some x → Produced h req.model x.content := by
  unfold lookup
  split
  · exact Ensures.pure (by simp)
  · refine Ensures.perform (hdigest _) fun hit hexact => ?_
    cases hit with
    | some hit => exact Ensures.pure fun x hx => hexact x (congrArg Except.ok hx)
    | none =>
      refine Ensures.perform trivial fun embedding _ => ?_
      cases embedding with
      | none => exact Ensures.pure (by simp)
      | some embedding =>
        refine Ensures.perform trivial fun entry hsimilar => Ensures.pure fun x hx => ?_
        obtain ⟨row, rfl, rfl⟩ := Option.map_eq_some_iff.mp hx
        exact hsimilar row rfl

/-- The write-back keeps the contract. -/
theorem ensures_store {content : String} (hproduced : Produced h req.model content)
    (tokensIn tokensOut : Int) :
    Ensures purpose h (store gw req content tokensIn tokensOut) fun _ => True := by
  unfold store
  split
  · exact Ensures.pure trivial
  · refine Ensures.perform ⟨hdigest _, hproduced⟩ fun _ _ => ?_
    refine Ensures.perform trivial fun embedding _ => ?_
    cases embedding with
    | none => exact Ensures.pure trivial
    | some embedding => exact ensures_call hproduced

theorem ensures_settle (start : Time) (reservation : Resilience.RateLimit.ReservationId)
    (backend : Backend) {content : String} (hproduced : Produced h req.model content)
    (tokensIn tokensOut : Int) (finishReason : Option String) :
    Ensures purpose h
      (settle gw req start reservation backend content tokensIn tokensOut finishReason)
      fun _ => True := by
  refine Ensures.perform trivial fun now _ => Ensures.perform trivial fun _ _ => ?_
  refine (ensures_latencyRecord _ _).bind fun _ _ => ?_
  refine (ensures_store gw req hdigest hproduced _ _).bind fun _ _ => ?_
  exact Ensures.perform trivial fun _ _ => Ensures.perform trivial fun _ _ => Ensures.pure trivial

omit hdigest

/-- The loop only ever works on candidates for the requested model. -/
theorem ensures_walk {α : Type} {R : α → Prop} {stopped : Raised}
    {body : Backend → Client → Action (Pass α)} {exhausted : Option Raised → Action α}
    {model : String}
    (hbody : ∀ backend client, backend.model = model →
      Ensures purpose h (body backend client) fun pass => ∀ a, pass = .done a → R a)
    (hexhausted : ∀ err, Ensures purpose h (exhausted err) R)
    {remaining : List (Backend × Client)} (hremaining : ∀ pair ∈ remaining, pair.1.model = model)
    (err : Option Raised) :
    Ensures purpose h (walk req stopped body exhausted remaining err) R := by
  suffices hwalk : WalkRule (provenanceContract purpose h) req stopped body exhausted
      (fun remaining _ => ∀ pair ∈ remaining, pair.1.model = model)
      (fun _ _ _ r => ∀ a, r = .ok a → R a) from hwalk.wp_walk hremaining
  have hrest : ∀ {rem : List (Backend × Client)} (chosen : Uuid),
      (∀ pair ∈ rem, pair.1.model = model) → ∀ pair ∈ without chosen rem, pair.1.model = model :=
    fun _ hrem pair hpair => hrem pair (List.mem_filter.mp hpair).1
  refine ⟨fun _ _ => trivial, ?_, ?_, fun _ _ => trivial, ?_, ?_, ?_, ?_⟩
  · exact fun _ _ _ _ heq => nomatch heq
  · exact fun _ _ _ _ _ heq => nomatch heq
  · exact fun _ _ _ _ heq => nomatch heq
  · exact fun hrem _ _ _ => ⟨hrest _ hrem, fun _ _ hr => hr⟩
  · intro rem err chosen backend client hrem _ hpair _
    have hmodel : backend.model = model := hrem _ (pairOf_mem hpair).1
    refine wp_mono (hbody backend client hmodel) fun trace r hr => ?_
    cases r with
    | error e => exact fun _ heq => nomatch heq
    | ok pass =>
      cases pass with
      | done a => exact fun a' heq => Except.ok.inj heq ▸ hr _ rfl a rfl
      | next err' => exact ⟨hrest _ hrem, fun _ _ hr' => hr'⟩
  · exact fun _ => hexhausted _

include hdigest

/-- A candidate for the requested model serves the requested model. -/
theorem ensures_completeWith (start : Time) (reservation : Resilience.RateLimit.ReservationId)
    {backend : Backend} (client : Client) (hmodel : backend.model = req.model) :
    Ensures purpose h (completeWith gw req start reservation backend client) fun pass =>
      ∀ r, pass = .done r → ServedBy h req.model r := by
  have hcall : Ensures purpose h (withSemaphore backend.id
      (call (.complete client req.messages backend.model))) fun completion =>
        Produced h req.model completion.content :=
    ensures_withSemaphore (Ensures.call trivial fun completion hpromised =>
      hmodel ▸ hpromised completion rfl)
  refine hcall.attempt.bind fun outcome houtcome => ?_
  cases outcome with
  | error e =>
    dsimp only
    split
    · refine Ensures.perform trivial fun _ _ => (ensures_incr gw _ _).bind fun _ _ => ?_
      exact Ensures.pure fun _ heq => nomatch heq
    · exact Ensures.throw
  | ok completion =>
    have hproduced := houtcome completion rfl
    refine (ensures_settle gw req hdigest start reservation backend hproduced _ _ _).bind ?_
    refine fun latency _ => (ensures_incr gw _ _).bind fun _ _ => ?_
    refine (ensures_observe gw _ _ _).bind fun _ _ => Ensures.pure fun r hr => ?_
    obtain rfl := Pass.done.inj hr
    exact ⟨hmodel, hproduced⟩

theorem ensures_handleComplete : Ensures (.request req.model) h (handleComplete gw req)
    (ServedBy h req.model) := by
  refine Ensures.perform trivial fun start _ => Ensures.perform trivial fun reservation _ => ?_
  cases reservation with
  | none => exact Ensures.throw
  | some reservation =>
    refine (ensures_lookup gw req hdigest).bind fun hit hproduced => ?_
    cases hit with
    | some hit =>
      refine (ensures_chargeHit gw req start reservation hit).bind fun _ _ => ?_
      exact Ensures.pure ⟨rfl, hproduced hit rfl⟩
    | none =>
      refine Ensures.perform trivial fun remaining hremaining => ?_
      split
      · exact Ensures.throw
      · refine ensures_walk req (fun backend client hmodel =>
          ensures_completeWith gw req hdigest start reservation client hmodel) (fun err => ?_)
          (hremaining remaining rfl) none
        refine (ensures_logUnavailable req start).bind fun _ _ => ?_
        exact (ensures_incr gw _ _).bind fun _ _ => Ensures.throw

omit hdigest

/-- Only text that the stream has sent is yielded, and all of it by the time it ends. -/
theorem ensures_consume (client : Client) {model : String} {events : List StreamEvent}
    (hsent : ∀ chunk ∈ texts events, Sent h model chunk) (s : Consumed) :
    Ensures (.request model) h (consume client events s) fun r =>
      r.2 = .ok () → r.1.accumulated = s.accumulated ++ texts events := by
  induction events generalizing s with
  | nil =>
    exact Ensures.perform_attempt trivial fun _ _ => Ensures.pure fun _ => by simp [texts]
  | cons event events ih =>
    refine Ensures.perform_attempt trivial fun r _ => ?_
    cases r with
    | error e => exact Ensures.pure (by simp)
    | ok u =>
      cases event with
      | usage u => exact ih hsent _
      | text chunk =>
        have htexts : texts (.text chunk :: events) = chunk :: texts events := rfl
        rw [htexts] at hsent ⊢
        obtain ⟨hchunk, hrest⟩ := List.forall_mem_cons.mp hsent
        refine Ensures.perform_attempt ⟨model, rfl, .inr hchunk⟩ fun r _ => ?_
        cases r with
        | error e => exact Ensures.pure (by simp)
        | ok v =>
          refine (ih hrest _).mono fun r hr hok => ?_
          rw [hr hok, List.append_assoc]
          rfl

theorem ensures_streamFrom {backend : Backend} (client : Client)
    (hmodel : backend.model = req.model) :
    Ensures (.request req.model) h (streamFrom req backend client) fun r =>
      r.2 = .ok () → Produced h req.model (String.join r.1.accumulated) := by
  refine Ensures.perform_attempt trivial fun r _ => ?_
  cases r with
  | error e => exact Ensures.pure (by simp)
  | ok u =>
    refine Ensures.bind (R := fun r : Consumed × Except Raised Unit =>
      r.2 = .ok () → Produced h req.model (String.join r.1.accumulated)) ?_ ?_
    · refine Ensures.perform_attempt trivial fun r hr => ?_
      cases r with
      | error e => exact Ensures.pure (by simp)
      | ok events =>
        obtain ⟨hproduced, hsent⟩ := hmodel ▸ hr events rfl
        refine (ensures_consume client hsent {}).mono fun r hr hok => ?_
        rw [hr hok]
        exact hproduced
    · rintro ⟨s, ended⟩ hs
      refine Ensures.perform_attempt trivial fun r _ => ?_
      cases r with
      | error e => exact Ensures.pure (by simp)
      | ok v => exact Ensures.pure hs

include hdigest

theorem ensures_streamWith (start : Time) (reservation : Resilience.RateLimit.ReservationId)
    {backend : Backend} (client : Client) (hmodel : backend.model = req.model) :
    Ensures (.request req.model) h (streamWith gw req start reservation backend client)
      fun _ => True := by
  refine (ensures_streamFrom req client hmodel).bind ?_
  rintro ⟨s, ended⟩ hproduced
  cases ended with
  | error e =>
    dsimp only
    split
    · refine Ensures.perform trivial fun _ _ => ?_
      split
      · exact Ensures.throw
      · exact Ensures.pure trivial
    · exact Ensures.throw
  | ok u =>
    refine (ensures_settle gw req hdigest start reservation backend (hproduced rfl) _ _ _).bind ?_
    refine fun latency _ => (ensures_incr gw _ _).bind fun _ _ => ?_
    refine Ensures.perform ⟨req.model, rfl, hmodel, hproduced rfl⟩ fun _ _ => ?_
    exact Ensures.pure trivial

theorem ensures_handleStream :
    Ensures (.request req.model) h (handleStream gw req) fun _ => True := by
  refine Ensures.perform trivial fun start _ => Ensures.perform trivial fun reservation _ => ?_
  cases reservation with
  | none => exact Ensures.throw
  | some reservation =>
    refine (ensures_lookup gw req hdigest).bind fun hit hproduced => ?_
    cases hit with
    | some hit =>
      refine (ensures_chargeHit gw req start reservation hit).bind fun _ _ => ?_
      refine Ensures.perform ⟨req.model, rfl, .inl (hproduced hit rfl)⟩ fun _ _ => ?_
      exact ensures_call ⟨req.model, rfl, rfl, hproduced hit rfl⟩
    | none =>
      refine Ensures.perform trivial fun remaining hremaining => ?_
      split
      · exact Ensures.throw
      · refine ensures_walk req (fun backend client hmodel =>
          (ensures_streamWith gw req hdigest start reservation client hmodel).mono fun _ _ _ _ =>
            trivial) (fun err => ?_) (hremaining remaining rfl) none
        exact (ensures_logUnavailable req start).bind fun _ _ => Ensures.throw

end Parts

section Admin
variable {h : History}

theorem ensures_acloseAll (clients : List Client) :
    Ensures .admin h (acloseAll clients) fun _ => True := by
  induction clients with
  | nil => exact Ensures.pure trivial
  | cons client clients ih => exact Ensures.perform trivial fun _ _ => ih

theorem ensures_reload : Ensures .admin h reload fun _ => True :=
  Ensures.perform trivial fun _ _ => Ensures.perform trivial fun _ _ =>
    Ensures.perform trivial fun oldClients _ => ensures_acloseAll oldClients

theorem ensures_upsertBackend (body : BackendUpsert) :
    Ensures .admin h (upsertBackend body) fun _ => True :=
  Ensures.perform trivial fun _ _ => ensures_reload.bind fun _ _ => Ensures.pure trivial

end Admin

/-! ## The world keeps the contract -/

theorem Promised.later {h h' : History} {op : Op} {r : Reply op} (hp : Promised h op r)
    (hle : h ⊆ h') : Promised h' op r := by
  cases op with
  | exactGet model promptHash => exact fun hit heq => (hp hit heq).later hle
  | findSimilar model embedding => exact fun entry heq => (hp entry heq).later hle
  | candidates model => exact hp
  | complete client messages model => exact fun completion heq => (hp completion heq).later hle
  | stream client messages model =>
    exact fun events heq =>
      ⟨(hp events heq).1.later hle, fun chunk hc => ((hp events heq).2 chunk hc).later hle⟩
  | _ => trivial

/-- Everything in the caches has been produced for the model it is filed under, the
registry lists backends under their models, and so did everything that was yielded. -/
structure Sourced (w : World) (h : History) : Prop where
  l1 : ∀ key stored, w.l1 key = some stored → ∃ model promptHash,
    key = l1Key model promptHash ∧ promptHash.length = 64 ∧ Produced h model stored.value.content
  l2 : ∀ entry ∈ w.entries, Produced h entry.model entry.response
  registry : w.registry.Grouped
  emitted : ∀ purpose event r, (purpose, ⟨.emit event, r⟩) ∈ h →
    ∃ model, purpose = .request model ∧ Delivered h model event

namespace Sourced
variable {w : World} {h : History}

theorem initial (table : List Backend) : Sourced ⟨Strings.empty, [], table, {}⟩ [] where
  l1 _ _ hstored := nomatch hstored
  l2 _ hentry := nomatch hentry
  registry := BackendRegistry.grouped_empty
  emitted _ _ _ hmem := nomatch hmem

/-- An allowed operation that leaves the world as it is. -/
theorem perform (hs : Sourced w h) {purpose : Purpose} {op : Op} {r : Reply op}
    (hallowed : Allowed purpose h op) : Sourced w (h ++ [(purpose, ⟨op, r⟩)]) where
  l1 key stored hstored := by
    obtain ⟨model, promptHash, hkey, hlen, hproduced⟩ := hs.l1 key stored hstored
    exact ⟨model, promptHash, hkey, hlen, hproduced.later (List.subset_append_left _ _)⟩
  l2 entry hentry := (hs.l2 entry hentry).later (List.subset_append_left _ _)
  registry := hs.registry
  emitted purpose' event r' hmem := by
    obtain ⟨model, hpurpose, hdelivered⟩ : ∃ model, purpose' = .request model ∧
        Delivered h model event := by
      obtain hold | hnew := List.mem_append.mp hmem
      · exact hs.emitted purpose' event r' hold
      · obtain ⟨rfl, heq⟩ := Prod.mk.inj (List.mem_singleton.mp hnew)
        obtain ⟨rfl, -⟩ := Sigma.mk.inj heq
        exact hallowed
    exact ⟨model, hpurpose, hdelivered.later (List.subset_append_left _ _)⟩

/-- What L1 answers under a digest has been produced for the model: the length of the
digest tells where the model ends in the key. -/
theorem exactGet (hs : Sourced w h) {model promptHash : String} (hlen : promptHash.length = 64)
    {now : Time} {hit : CacheHit} (hhit : ExactCache.get w.l1 now model promptHash = some hit) :
    Produced h model hit.content := by
  obtain ⟨-, stored, hstored, hvalue⟩ := ExactCache.exists_stored hhit
  obtain ⟨model', promptHash', hkey, hlen', hproduced⟩ := hs.l1 _ stored hstored
  obtain ⟨rfl, -⟩ := (l1Key_inj (hlen.trans hlen'.symm)).mp hkey
  rwa [hvalue] at hproduced

theorem exactPut (hs : Sourced w h) {model promptHash content : String} {tokensIn tokensOut : Int}
    (hlen : promptHash.length = 64) (hproduced : Produced h model content) (l1 : ExactCache)
    (now : Time) :
    Sourced { w with l1 := l1.put w.l1 now model promptHash content tokensIn tokensOut } h where
  l1 key stored hstored := by
    by_cases hkey : key = l1Key model promptHash
    · have hnew : (⟨⟨content, tokensIn, tokensOut⟩, now + l1.ttlSeconds⟩ : Stored Payload) =
          stored := by simpa [ExactCache.put, Strings.setEx, hkey] using hstored
      exact ⟨model, promptHash, hkey, hlen, hnew ▸ hproduced⟩
    · exact hs.l1 key stored (by simpa [ExactCache.put, Strings.setEx, hkey] using hstored)
  l2 := hs.l2
  registry := hs.registry
  emitted := hs.emitted

theorem insertEntry (hs : Sourced w h) {entry : CacheEntry}
    (hproduced : Produced h entry.model entry.response) :
    Sourced { w with entries := w.entries ++ [entry] } h := by
  refine { hs with l2 := fun row hrow => ?_ }
  obtain hold | hnew := List.mem_append.mp hrow
  · exact hs.l2 row hold
  · exact List.mem_singleton.mp hnew ▸ hproduced

theorem drift (hs : Sourced w h) {w' : World} (hdrift : Drift w w') : Sourced w' h := by
  cases hdrift with
  | expire gone =>
    refine { hs with l1 := fun key stored hstored => ?_ }
    exact hs.l1 key stored (by simpa using (Option.ite_none_left_eq_some.mp hstored).2)
  | evict entries hsub => exact { hs with l2 := fun entry hentry => hs.l2 entry (hsub hentry) }
  | table table => exact { hs with }
  | aclose => exact { hs with registry := BackendRegistry.grouped_empty }

end Sourced

/-- Whatever the world answers to an allowed operation keeps it sourced and keeps what is
promised. -/
theorem handles_sourced {cache : TwoTierCache} {w w' : World} {h : History} {purpose : Purpose}
    {op : Op} {r : Reply op} (hs : Sourced w h) (hallowed : Allowed purpose h op)
    (hhandles : Handles cache w op r w') :
    Sourced w' (h ++ [(purpose, ⟨op, r⟩)]) ∧ Promised (h ++ [(purpose, ⟨op, r⟩)]) op r := by
  have hle : h ⊆ h ++ [(purpose, ⟨op, r⟩)] := List.subset_append_left _ _
  have hself : (purpose, ⟨op, r⟩) ∈ h ++ [(purpose, ⟨op, r⟩)] :=
    List.mem_append_right _ (List.mem_singleton_self _)
  have hs' : Sourced w (h ++ [(purpose, ⟨op, r⟩)]) := hs.perform hallowed
  cases op with
  | exactGet model promptHash =>
    obtain ⟨rfl, hr⟩ := hhandles
    refine ⟨hs', fun hit heq => ?_⟩
    obtain ⟨now, hr⟩ | ⟨e, hr⟩ := hr
    · exact hs'.exactGet hallowed (Except.ok.inj (hr.symm.trans heq))
    · exact nomatch hr.symm.trans heq
  | exactPut model promptHash content tokensIn tokensOut =>
    obtain ⟨hlen, hproduced⟩ := hallowed
    obtain ⟨now, rfl⟩ | ⟨rfl, -⟩ := hhandles
    · exact ⟨hs'.exactPut hlen (hproduced.later hle) cache.l1 now, trivial⟩
    · exact ⟨hs', trivial⟩
  | findSimilar model embedding =>
    obtain ⟨rfl, hr⟩ := hhandles
    refine ⟨hs', fun entry heq => ?_⟩
    obtain ⟨rows, hrows, hr⟩ | ⟨e, hr⟩ := hr
    · obtain ⟨hmem, rfl⟩ := SemanticCacheRepo.findSimilar_mem (Except.ok.inj (hr.symm.trans heq))
      exact hs'.l2 entry (hrows hmem)
    · exact nomatch hr.symm.trans heq
  | insertEntry entry =>
    obtain rfl | ⟨rfl, -⟩ := hhandles
    · exact ⟨hs'.insertEntry (Produced.later hallowed hle), trivial⟩
    · exact ⟨hs', trivial⟩
  | candidates model =>
    obtain ⟨rfl, hr⟩ := hhandles
    refine ⟨hs', fun pairs heq => ?_⟩
    obtain ⟨pairs', hpairs, hr⟩ | ⟨e, hr⟩ := hr
    · obtain rfl := Except.ok.inj (hr.symm.trans heq)
      exact hs'.registry.candidates hpairs
    · exact nomatch hr.symm.trans heq
  | complete client messages model =>
    obtain rfl : w' = w := hhandles
    refine ⟨hs', fun completion heq => ?_⟩
    subst heq
    exact .completed hself rfl
  | stream client messages model =>
    obtain rfl : w' = w := hhandles
    refine ⟨hs', fun events heq => ?_⟩
    subst heq
    exact ⟨.streamed hself rfl, fun chunk hchunk => ⟨_, _, _, _, hself, hchunk⟩⟩
  | upsert body =>
    obtain ⟨uuid4, rfl, -⟩ | ⟨rfl, -⟩ := hhandles
    · exact ⟨{ hs' with }, trivial⟩
    · exact ⟨hs', trivial⟩
  | listBackends =>
    obtain ⟨rfl, -⟩ := hhandles
    exact ⟨hs', trivial⟩
  | install backends =>
    obtain ⟨clientFactory, hinstall⟩ := hhandles
    split at hinstall
    · rename_i registry oldClients hnew
      obtain ⟨rfl, -⟩ := hinstall
      exact ⟨{ hs' with registry := BackendRegistry.Grouped.install hnew }, trivial⟩
    · obtain ⟨rfl, -⟩ := hinstall
      exact ⟨hs', trivial⟩
  | _ =>
    obtain rfl : w' = w := hhandles
    exact ⟨hs', trivial⟩

/-! ## Model provenance -/

/-- A completion that a request returns is for its model. -/
def Answered (purpose : Purpose) (h : History) : Outcome → Prop
  | .completed r => ∀ result, r = .ok result →
      ∃ model, purpose = .request model ∧ ServedBy h model result
  | _ => True

theorem starts_answered {gw : RequestOrchestrator}
    (hdigest : ∀ bytes, (gw.sha256 bytes).length = 64) {purpose : Purpose}
    {p : Program Op Reply Outcome} (hstart : Starts gw purpose p) (h : History) :
    Program.wp (provenanceContract purpose h) p fun _ outcome => Answered purpose h outcome := by
  cases hstart with
  | complete req =>
    exact (Program.wp_map _ _).mpr (wp_mono (ensures_handleComplete gw req hdigest)
      fun _ _ hr result heq => ⟨req.model, rfl, hr result heq⟩)
  | stream req =>
    exact (Program.wp_map _ _).mpr (wp_mono (ensures_handleStream gw req hdigest)
      fun _ _ _ => trivial)
  | upsert body =>
    exact (Program.wp_map _ _).mpr (wp_mono (ensures_upsertBackend body) fun _ _ _ => trivial)
  | reload => exact (Program.wp_map _ _).mpr (wp_mono ensures_reload fun _ _ _ => trivial)

/-- The rely-guarantee argument for the gateway. -/
def provenance (cache : TwoTierCache) (gw : RequestOrchestrator) (table : List Backend)
    (hdigest : ∀ bytes, (gw.sha256 bytes).length = 64) :
    Pool.Discipline (gateway cache gw table) where
  contract := provenanceContract
  result := Answered
  Inv := Sourced
  initial := Sourced.initial table
  start _ _ hstart h := starts_answered hdigest hstart h
  lasting _ _ _ hle _ _ hp := Promised.later hp hle.subset
  handle _ _ _ _ _ _ hs hallowed hhandles := handles_sourced hs hallowed hhandles
  drift _ _ _ hs hdrift := hs.drift hdrift

/-- Model provenance. In every state that chat requests, upserts, reloads and expiries can
reach in any order, a completion returned for a model names that model and has been
produced by a call for it, and so has everything that a stream has yielded for a model.
All that is asked of the digests is their length. -/
theorem model_provenance (cache : TwoTierCache) (gw : RequestOrchestrator) (table : List Backend)
    (hdigest : ∀ bytes, (gw.sha256 bytes).length = 64)
    {w : Pool Purpose World Op Reply Outcome} (hreach : Pool.Reachable (gateway cache gw table) w) :
    (∀ model result, (.request model, .pure (.completed (.ok result))) ∈ w.tasks →
      ServedBy w.history model result) ∧
    ∀ model event r, (.request model, ⟨.emit event, r⟩) ∈ w.history →
      Delivered w.history model event := by
  constructor
  · intro model result hmem
    obtain ⟨model', hpurpose, hserved⟩ :=
      Pool.Discipline.finished (D := provenance cache gw table hdigest) hreach hmem result rfl
    obtain rfl := Purpose.request.inj hpurpose
    exact hserved
  · intro model event r hmem
    obtain ⟨hsourced, -⟩ := Pool.Discipline.sound (D := provenance cache gw table hdigest) hreach
    obtain ⟨model', hpurpose, hdelivered⟩ := hsourced.emitted _ event r hmem
    obtain rfl := Purpose.request.inj hpurpose
    exact hdelivered

/-- A digest of the right length that collides everywhere. -/
def zeroDigest : RequestOrchestrator := ⟨true, fun _ => String.ofList (List.replicate 64 '0')⟩

def sampleCache : TwoTierCache := ⟨⟨3600, by decide⟩, 97 / 100, fun _ _ => none⟩

/-- How the world answers if a client can be made for every row. -/
def answerWorld : Program.Handler Op Reply World := fun w op =>
  match op with
  | .exactGet model promptHash => (.ok (ExactCache.get w.l1 0 model promptHash), w)
  | .exactPut model promptHash content tokensIn tokensOut =>
    (.ok (), { w with
      l1 := sampleCache.l1.put w.l1 0 model promptHash content tokensIn tokensOut })
  | .candidates model =>
    match w.registry.candidates model with
    | some pairs => (.ok pairs, w)
    | none => (.error (.failure "KeyError"), w)
  | .listBackends => (.ok w.table, w)
  | .install rows =>
    match w.registry.install (fun row => .ok ⟨row.id⟩) rows with
    | .ok (registry, oldClients) => (.ok oldClients, { w with registry })
    | .error e => (.error e, w)
  | .findSimilar .. | .insertEntry _ | .upsert _ => (.error (.failure "not used"), w)
  | op => (failoverAnswer op, w)

theorem answerWorld_handles (w : World) (op : Op) :
    Handles sampleCache w op (answerWorld w op).1 (answerWorld w op).2 := by
  cases op with
  | exactGet => exact ⟨rfl, .inl ⟨0, rfl⟩⟩
  | exactPut => exact .inl ⟨0, rfl⟩
  | candidates model =>
    cases hpairs : w.registry.candidates model with
    | some pairs =>
      simp only [answerWorld, hpairs]
      exact ⟨rfl, .inl ⟨pairs, hpairs, rfl⟩⟩
    | none =>
      simp only [answerWorld, hpairs]
      exact ⟨rfl, .inr ⟨_, rfl⟩⟩
  | listBackends => exact ⟨rfl, .inl ⟨_, .refl _, rfl⟩⟩
  | install rows =>
    refine ⟨fun row => .ok ⟨row.id⟩, ?_⟩
    cases hinstall : w.registry.install (fun row => .ok ⟨row.id⟩) rows with
    | error e => simp [answerWorld, hinstall]
    | ok new => simp [answerWorld, hinstall]
  | findSimilar => exact ⟨rfl, .inr ⟨_, rfl⟩⟩
  | insertEntry | upsert => exact .inr ⟨rfl, _, rfl⟩
  | _ => rfl

def healthy : List Backend := [⟨1, "healthy", .ollama, "e", "m", 200, true, 0, 0⟩]

/-- A reload, a request that is answered by a backend, and a stream of the same prompt. -/
def answeredPool : Pool Purpose World Op Reply Outcome :=
  Pool.schedule answerWorld ⟨⟨Strings.empty, [], healthy, {}⟩, [],
    [(.admin, (fun _ => .administered) <$> reload.run),
      (.request "m", Outcome.completed <$> (handleComplete zeroDigest hiRequest).run),
      (.request "m", Outcome.streamed <$> (handleStream zeroDigest hiRequest).run)]⟩
    (List.replicate 3 0 ++ List.replicate 20 1 ++ List.replicate 9 2)

theorem answeredPool_reachable :
    Pool.Reachable (gateway sampleCache zeroDigest healthy) answeredPool := by
  refine .schedule answerWorld_handles (.starts .initial ?_) _
  simp only [List.forall_mem_cons]
  exact ⟨.reload, .complete hiRequest, .stream hiRequest, nofun⟩

def Outcome.result? : Outcome → Option CompletionResult
  | .completed (.ok result) => some result
  | _ => none

def resultOf : Program Op Reply Outcome → Option CompletionResult
  | .pure outcome => outcome.result?
  | .perform .. => none

def resultEmitted : Op → Option CompletionResult
  | .emit (.result result) => some result
  | _ => none

theorem exists_completed {p : Program Op Reply Outcome} {result : CompletionResult}
    (h : resultOf p = some result) : p = .pure (.completed (.ok result)) := by
  unfold resultOf at h
  split at h
  · unfold Outcome.result? at h
    split at h
    · rw [Option.some.inj h]
    · exact nomatch h
  · exact nomatch h

theorem eq_emit_result {op : Op} {result : CompletionResult}
    (h : resultEmitted op = some result) : op = .emit (.result result) := by
  unfold resultEmitted at h
  split at h
  · rw [Option.some.inj h]
  · exact nomatch h

/-- The first request has been answered by a backend, the second one from L1. -/
theorem model_provenance_answered :
    (∃ result, (.request "m", .pure (.completed (.ok result))) ∈ answeredPool.tasks ∧
      result.backendName = some "healthy" ∧ ServedBy answeredPool.history "m" result) ∧
    ∃ result r, (.request "m", ⟨.emit (.result result), r⟩) ∈ answeredPool.history ∧
      result.cacheTier = some .l1 ∧ Delivered answeredPool.history "m" (.result result) := by
  have hdigest : ∀ bytes, (zeroDigest.sha256 bytes).length = 64 := fun _ =>
    (by decide : (String.ofList (List.replicate 64 '0')).length = 64)
  obtain ⟨hserved, hdelivered⟩ :=
    model_provenance sampleCache zeroDigest _ hdigest answeredPool_reachable
  have hlive : ∃ task ∈ answeredPool.tasks, task.1 = .request "m" ∧ resultOf task.2 =
      some ⟨"ok", "m", 1, 1, some "stop", none, some "healthy"⟩ := by
    unfold answeredPool handleComplete handleStream
    rw [walk_evaluates]
    decide +kernel
  have hcached : ∃ e ∈ answeredPool.history, e.1 = .request "m" ∧ resultEmitted e.2.1 =
      some ⟨"ok", "m", 1, 1, none, some .l1, none⟩ := by
    unfold answeredPool handleComplete handleStream
    rw [walk_evaluates]
    decide +kernel
  obtain ⟨⟨_, p⟩, htask, rfl, hresult⟩ := hlive
  obtain rfl := exists_completed hresult
  obtain ⟨⟨_, op, r⟩, hevent, rfl, hemitted⟩ := hcached
  obtain rfl := eq_emit_result hemitted
  exact ⟨⟨_, htask, rfl, hserved _ _ htask⟩, ⟨_, r, hevent, rfl, hdelivered _ _ _ hevent⟩⟩

end InferenceGateway.Orchestrator
