import InferenceGateway.Library.Schedule
import InferenceGateway.Orchestrator.Bookkeeping
import InferenceGateway.Orchestrator.Evaluation
import InferenceGateway.Orchestrator.Traces
import InferenceGateway.Orchestrator.World

/-!
# The embedding service of a process

`SemanticCache` asks its factory for the embedding service when a text is first embedded, and keeps
what it returns for the life of the process, be it a service or nothing. A factory that raises is
asked again. All requests of the process share this one answer.
-/
namespace InferenceGateway.Orchestrator
open Library Library.Action Persistence

variable {Service : Type}

/-- The fields of `SemanticCache` that change. -/
structure SemanticCache (Service : Type) where
  embeddings : Option Service := none
  embeddingsResolved : Bool := false

namespace SemanticCache

/-- `_get_embeddings`, for what the factory does if it is called. -/
def getEmbeddings (self : SemanticCache Service) (factory : Except Raised (Option Service)) :
    Except Raised (Option Service) × SemanticCache Service :=
  if self.embeddingsResolved then (.ok self.embeddings, self)
  else match factory with
    | .error e => (.error e, self)
    | .ok embeddings => (.ok embeddings, ⟨embeddings, true⟩)

/-- `(vector,) = vectors`. -/
def single : List Embedding → Except Raised Embedding
  | [] => .error (.failure "not enough values to unpack (expected 1, got 0)")
  | [vector] => .ok vector
  | _ => .error (.failure "too many values to unpack (expected 1)")

/-- `embed`, for what the service answers to the text. -/
def embed (self : SemanticCache Service) (factory : Except Raised (Option Service))
    (vectors : Service → Except Raised (List Embedding)) :
    Except Raised (Option Embedding) × SemanticCache Service :=
  match self.getEmbeddings factory with
  | (.error e, self) => (.error e, self)
  | (.ok none, self) => (.ok none, self)
  | (.ok (some service), self) => ((vectors service).bind fun vs => (single vs).map some, self)

end SemanticCache

/-- A process, and what each call of its factory has come to. -/
structure Embedder (Service : Type) where
  cache : SemanticCache Service := {}
  called : List (Except Raised (Option Service)) := []

/-- Embedding a text, with services that compute vectors for texts. -/
def EmbedderHandles (computes : Service → String → List Embedding → Prop) (s : Embedder Service) :
    (op : Op) → Reply op → Embedder Service → Prop
  | .embed text, r, s' => ∃ factory vectors,
      (∀ service vs, vectors service = .ok vs → computes service text vs) ∧
      (r, s'.cache) = s.cache.embed factory vectors ∧
      s'.called = if s.cache.embeddingsResolved then s.called else s.called ++ [factory]
  | _, _, s' => s' = s

/-- Chat requests in one process, whatever the other operations reply. -/
def embedding (computes : Service → String → List Embedding → Prop) (gw : RequestOrchestrator)
    (requestOf : Nat → ChatRequest) : Pool.System Nat (Embedder Service) Op Reply Outcome where
  initial := {}
  starts tag p := p = Outcome.completed <$> (handleComplete gw (requestOf tag)).run ∨
    p = Outcome.streamed <$> (handleStream gw (requestOf tag)).run
  handle := EmbedderHandles computes
  drift _ _ := False

/-- The vector that an operation of the semantic tier is given. -/
def Op.vector : Op → Option Embedding
  | .findSimilar _ vector => some vector
  | .insertEntry entry => some entry.embedding
  | _ => none

/-! ## The answer is kept -/

section State
variable {computes : Service → String → List Embedding → Prop} {s s' : Embedder Service}
  {history : List (Nat × Event)} {text : String} {factory : Except Raised (Option Service)}
  {vectors : Service → Except Raised (List Embedding)}

theorem single_eq_ok {vs : List Embedding} {vector : Embedding}
    (h : SemanticCache.single vs = .ok vector) : vs = [vector] := by
  unfold SemanticCache.single at h
  split at h
  · exact absurd h (by simp)
  · rw [Except.ok.inj h]
  · exact absurd h (by simp)

namespace SemanticCache
variable {self self' : SemanticCache Service} {found : Option Service}

theorem getEmbeddings_of_resolved (h : self.embeddingsResolved = true) :
    self.getEmbeddings factory = (.ok self.embeddings, self) := if_pos h

theorem getEmbeddings_of_raised {e : Raised} (h : self.embeddingsResolved = false) :
    self.getEmbeddings (.error e) = (.error e, self) := if_neg (by simp [h])

theorem getEmbeddings_of_returned (h : self.embeddingsResolved = false) :
    self.getEmbeddings (.ok found) = (.ok found, ⟨found, true⟩) := if_neg (by simp [h])

/-- Embedding a text changes what asking for the service changes. -/
theorem snd_embed : (self.embed factory vectors).2 = (self.getEmbeddings factory).2 := by
  unfold embed
  split <;> simp_all

/-- What is returned is kept. -/
theorem getEmbeddings_eq_ok (h : self.getEmbeddings factory = (.ok found, self')) :
    self'.embeddingsResolved = true ∧ self'.embeddings = found := by
  cases hresolved : self.embeddingsResolved with
  | true =>
    rw [getEmbeddings_of_resolved hresolved] at h
    obtain ⟨hfound, rfl⟩ := Prod.mk.inj h
    exact ⟨hresolved, Except.ok.inj hfound⟩
  | false =>
    cases factory with
    | error e =>
      rw [getEmbeddings_of_raised hresolved] at h
      exact absurd (Prod.mk.inj h).1 (by simp)
    | ok result =>
      rw [getEmbeddings_of_returned hresolved] at h
      obtain ⟨hfound, rfl⟩ := Prod.mk.inj h
      exact ⟨rfl, Except.ok.inj hfound⟩

end SemanticCache

/-- What an embedding that has returned tells of the service. -/
def Told (computes : Service → String → List Embedding → Prop) (cache : SemanticCache Service)
    (text : String) : Option Embedding → Prop
  | none => cache.embeddings = none
  | some vector => ∃ service, cache.embeddings = some service ∧ computes service text [vector]

/-- An embedding that returns has resolved the service, and tells of it. -/
theorem told_of_embed {v : Option Embedding} {cache cache' : SemanticCache Service}
    (hvectors : ∀ service vs, vectors service = .ok vs → computes service text vs)
    (h : (Except.ok v, cache') = cache.embed factory vectors) :
    cache'.embeddingsResolved = true ∧ Told computes cache' text v := by
  unfold SemanticCache.embed at h
  split at h
  · exact absurd (Prod.mk.inj h).1 (by simp)
  · rename_i hget
    obtain ⟨hv, rfl⟩ := Prod.mk.inj h
    obtain ⟨hresolved, hnone⟩ := SemanticCache.getEmbeddings_eq_ok hget
    rw [Except.ok.inj hv]
    exact ⟨hresolved, hnone⟩
  · rename_i service _ hget
    obtain ⟨hv, rfl⟩ := Prod.mk.inj h
    obtain ⟨hresolved, hsome⟩ := SemanticCache.getEmbeddings_eq_ok hget
    refine ⟨hresolved, ?_⟩
    cases hvs : vectors service with
    | error e => simp [hvs, Except.bind] at hv
    | ok vs =>
      cases hsingle : SemanticCache.single vs with
      | error e => simp [hvs, hsingle, Except.bind, Except.map] at hv
      | ok vector =>
        obtain rfl : v = some vector := by simpa [hvs, hsingle, Except.bind, Except.map] using hv
        exact ⟨service, hsome, single_eq_ok hsingle ▸ hvectors service vs hvs⟩

/-- The factory has raised until it returned, and every embedding used what it returned. -/
structure Resolved (computes : Service → String → List Embedding → Prop) (s : Embedder Service)
    (history : List (Nat × Event)) : Prop where
  waiting : s.cache.embeddingsResolved = false → ∀ result ∈ s.called, ∃ e, result = .error e
  returned : s.cache.embeddingsResolved = true →
    ∃ failed, s.called = failed ++ [.ok s.cache.embeddings] ∧
      ∀ result ∈ failed, ∃ e, result = .error e
  told : ∀ tag text v, (tag, ⟨.embed text, .ok v⟩) ∈ history →
    s.cache.embeddingsResolved = true ∧ Told computes s.cache text v

/-- What the last event tells is told beside the rest. -/
theorem Resolved.snoc {tag : Nat} {op : Op} {r : Reply op} (h : Resolved computes s history)
    (hwaiting : s'.cache.embeddingsResolved = false → ∀ result ∈ s'.called, ∃ e, result = .error e)
    (hreturned : s'.cache.embeddingsResolved = true →
      ∃ failed, s'.called = failed ++ [.ok s'.cache.embeddings] ∧
        ∀ result ∈ failed, ∃ e, result = .error e)
    (hkept : s.cache.embeddingsResolved = true → s'.cache = s.cache)
    (htold : ∀ text v, (⟨op, r⟩ : Event) = ⟨.embed text, .ok v⟩ →
      s'.cache.embeddingsResolved = true ∧ Told computes s'.cache text v) :
    Resolved computes s' (history ++ [(tag, ⟨op, r⟩)]) where
  waiting := hwaiting
  returned := hreturned
  told tag' text v hmem := by
    obtain hold | hlast := List.mem_append.mp hmem
    · obtain ⟨hresolved, hv⟩ := h.told tag' text v hold
      rw [hkept hresolved]
      exact ⟨hresolved, hv⟩
    · exact htold text v (Prod.mk.inj (List.mem_singleton.mp hlast)).2.symm

/-- One operation. -/
theorem resolved_handles {tag : Nat} {op : Op} {r : Reply op} (h : Resolved computes s history)
    (hhandles : EmbedderHandles computes s op r s') :
    Resolved computes s' (history ++ [(tag, ⟨op, r⟩)]) := by
  by_cases hembed : ∃ text, op = .embed text
  · obtain ⟨text, rfl⟩ := hembed
    obtain ⟨factory, vectors, hvectors, hreply, hcalled⟩ := hhandles
    have hcache : s'.cache = (s.cache.getEmbeddings factory).2 :=
      (congrArg Prod.snd hreply).trans SemanticCache.snd_embed
    have htold : ∀ text' v, (⟨.embed text, r⟩ : Event) = ⟨.embed text', .ok v⟩ →
        s'.cache.embeddingsResolved = true ∧ Told computes s'.cache text' v := by
      intro text' v heq
      obtain ⟨hop, hr⟩ := Sigma.mk.inj heq
      obtain rfl := Op.embed.inj hop
      obtain rfl := eq_of_heq hr
      exact told_of_embed hvectors hreply
    cases hresolved : s.cache.embeddingsResolved with
    | true =>
      rw [SemanticCache.getEmbeddings_of_resolved hresolved] at hcache
      rw [if_pos hresolved] at hcalled
      refine h.snoc ?_ ?_ (fun _ => hcache) htold
      · rw [hcache, hcalled]
        exact h.waiting
      · rw [hcache, hcalled]
        exact h.returned
    | false =>
      have hfailed := h.waiting hresolved
      rw [if_neg (by simp [hresolved])] at hcalled
      cases factory with
      | error e =>
        rw [SemanticCache.getEmbeddings_of_raised hresolved] at hcache
        refine h.snoc (fun _ => ?_) (fun htrue => ?_) (fun _ => hcache) htold
        · rw [hcalled]
          exact List.forall_mem_append.mpr ⟨hfailed, List.forall_mem_singleton.mpr ⟨e, rfl⟩⟩
        · rw [hcache, hresolved] at htrue
          exact absurd htrue (by simp)
      | ok found =>
        rw [SemanticCache.getEmbeddings_of_returned hresolved] at hcache
        refine h.snoc (fun hfalse => ?_) (fun _ => ⟨s.called, ?_, hfailed⟩) (fun htrue => ?_) htold
        · rw [hcache] at hfalse
          exact absurd hfalse (by simp)
        · rw [hcalled, hcache]
        · rw [hresolved] at htrue
          exact absurd htrue (by simp)
  · obtain rfl : s' = s := by
      cases op <;> first | exact hhandles | exact absurd ⟨_, rfl⟩ hembed
    refine h.snoc h.waiting h.returned (fun _ => rfl) fun text v heq => ?_
    exact absurd ⟨text, (Sigma.mk.inj heq).1⟩ hembed

end State

/-! ## The vectors of a request -/

/-- The semantic tier is given vectors only if embedding this text has returned them. -/
abbrev ownVectors (Given : Embedding → Prop) (text : String) : Contract where
  allowed op := ∀ vector, op.vector = some vector → Given vector
  promised op r := ∀ vector, (⟨op, r⟩ : Event) = ⟨.embed text, .ok (some vector)⟩ → Given vector

theorem admits_ownVectors (gw : RequestOrchestrator) (req : ChatRequest)
    (Given : Embedding → Prop) : Admits (ownVectors Given (promptText req.messages)) gw req where
  allowed op hop := by
    cases op <;> simp_all [Op.touchesCache, Op.vector]
  lookup := by
    unfold Orchestrator.lookup
    split
    · exact .pure _
    · rename_i hbypass
      have hbypass : req.bypassCache = false := by simpa using hbypass
      refine Straight.perform nofun hbypass fun hit => ?_
      cases hit with
      | some hit => exact .pure _
      | none =>
        refine Straight.perform_promised nofun hbypass fun embedding hgiven => ?_
        cases embedding with
        | none => exact .pure _
        | some vector =>
          have hvector : Given vector := hgiven vector rfl
          refine Straight.perform (fun v hv => ?_) hbypass fun entry => .pure _
          exact Option.some.inj hv ▸ hvector
  store content tokensIn tokensOut := by
    unfold Orchestrator.store
    split
    · exact .pure _
    · rename_i hbypass
      have hbypass : req.bypassCache = false := by simpa using hbypass
      refine Straight.perform nofun hbypass fun _ => ?_
      refine Straight.perform_promised nofun hbypass fun embedding hgiven => ?_
      cases embedding with
      | none => exact .pure _
      | some vector =>
        have hvector : Given vector := hgiven vector rfl
        exact .call (fun v hv => Option.some.inj hv ▸ hvector) hbypass

/-! ## Requests in any number -/

section Runs
variable {computes : Service → String → List Embedding → Prop} {gw : RequestOrchestrator}
  {requestOf : Nat → ChatRequest} {w : Pool Nat (Embedder Service) Op Reply Outcome}

theorem resolved_initial : Resolved computes {} [] where
  waiting _ := List.forall_mem_nil _
  returned hresolved := absurd hresolved (by simp)
  told _ _ _ hmem := absurd hmem (by simp)

theorem Resolved.of_reachable (h : Pool.Reachable (embedding computes gw requestOf) w) :
    Resolved computes w.state w.history :=
  h.invariant resolved_initial (fun _ _ _ _ _ _ => resolved_handles)
    fun _ _ _ _ hdrift => False.elim hdrift

/-- A request gives the semantic tier vectors of its own prompt. -/
theorem told_of_vector (h : Pool.Reachable (embedding computes gw requestOf) w)
    (hnodup : (w.tasks.map Prod.fst).Nodup) {tag : Nat} {ev : Event}
    (hev : (tag, ev) ∈ w.history) {vector : Embedding} (hvector : ev.1.vector = some vector) :
    w.state.cache.embeddingsResolved = true ∧
      Told computes w.state.cache (promptText (requestOf tag).messages) (some vector) := by
  obtain ⟨task, htask, rfl⟩ := List.mem_map.mp (h.mem_tags _ hev)
  obtain ⟨p, hstart, hfollows⟩ := h.follows hnodup task htask
  let text := promptText (requestOf task.1).messages
  let Given : Embedding → Prop := fun vector =>
    w.state.cache.embeddingsResolved = true ∧ Told computes w.state.cache text (some vector)
  have hwp : Program.wp (ownVectors Given text) p fun _ _ => True := by
    have hadmits := admits_ownVectors gw (requestOf task.1) Given
    obtain rfl | rfl := hstart
    · exact (Program.wp_map _ _).mpr (wp_mono (handleComplete_trace hadmits) fun _ _ _ => trivial)
    · exact (Program.wp_map _ _).mpr (wp_mono (handleStream_trace hadmits) fun _ _ _ => trivial)
  refine hfollows.allowed hwp (fun ev hev vector heq => ?_) ev (Pool.mem_own.mpr hev) vector hvector
  have hmem : (task.1, ev) ∈ w.history := Pool.mem_own.mp hev
  rw [show ev = ⟨.embed text, .ok (some vector)⟩ from heq] at hmem
  exact (Resolved.of_reachable h).told _ _ _ hmem

end Runs

/-- However requests are interleaved, the factory is not called again once it has returned, and
the semantic tier is searched and filled only with vectors that the one service it returned has
computed for the request's own prompt; so not at all if it returned none. -/
theorem embeddings_resolved_once (computes : Service → String → List Embedding → Prop)
    (gw : RequestOrchestrator) (requestOf : Nat → ChatRequest)
    {w : Pool Nat (Embedder Service) Op Reply Outcome}
    (hreach : Pool.Reachable (embedding computes gw requestOf) w)
    (hnodup : (w.tasks.map Prod.fst).Nodup) :
    (∀ earlier result later, w.state.called = earlier ++ result :: later → later ≠ [] →
        ∃ e, result = .error e) ∧
      (∀ tag ev vector, (tag, ev) ∈ w.history → Op.vector ev.1 = some vector →
        ∃ service, .ok (some service) ∈ w.state.called ∧
          computes service (promptText (requestOf tag).messages) [vector]) ∧
      (.ok none ∈ w.state.called → ∀ e ∈ w.history, Op.vector e.2.1 = none) := by
  have hstate := Resolved.of_reachable hreach
  have hused : ∀ tag ev vector, (tag, ev) ∈ w.history → Op.vector ev.1 = some vector →
      ∃ service failed, w.state.called = failed ++ [.ok (some service)] ∧
        (∀ result ∈ failed, ∃ e, result = .error e) ∧
        computes service (promptText (requestOf tag).messages) [vector] := by
    intro tag ev vector hev hvector
    obtain ⟨hresolved, service, hservice, hcomputes⟩ :=
      told_of_vector hreach hnodup hev hvector
    obtain ⟨failed, hcalled, hfailed⟩ := hstate.returned hresolved
    rw [hservice] at hcalled
    exact ⟨service, failed, hcalled, hfailed, hcomputes⟩
  refine ⟨fun earlier result later hcalled hlater => ?_, fun tag ev vector hev hvector => ?_,
    fun hnone e he => ?_⟩
  · have hmem : result ∈ w.state.called := hcalled ▸ by simp
    cases hresolved : w.state.cache.embeddingsResolved with
    | false => exact hstate.waiting hresolved result hmem
    | true =>
      obtain ⟨failed, hreturned, hfailed⟩ := hstate.returned hresolved
      obtain ⟨later, last, rfl⟩ := (List.eq_nil_or_concat' later).resolve_left hlater
      rw [hreturned, ← List.cons_append, ← List.append_assoc] at hcalled
      obtain ⟨rfl, -⟩ := List.append_inj' hcalled rfl
      exact hfailed result (by simp)
  · obtain ⟨service, failed, hcalled, -, hcomputes⟩ := hused tag ev vector hev hvector
    exact ⟨service, by simp [hcalled], hcomputes⟩
  · refine Option.eq_none_iff_forall_ne_some.mpr fun vector hvector => ?_
    obtain ⟨service, failed, hcalled, hfailed, -⟩ := hused e.1 e.2 vector he hvector
    rw [hcalled, List.mem_append, List.mem_singleton] at hnone
    obtain hmem | heq := hnone
    · obtain ⟨e, heq⟩ := hfailed _ hmem
      exact absurd heq (by simp)
    · exact absurd heq (by simp)

/-- The factory raises when it is called first. -/
def lateService : Program.Handler Op Reply (Embedder Unit)
  | s, .embed _ =>
    let factory := if s.called.isEmpty then .error (.failure "not loaded") else .ok (some ())
    let (r, cache) := s.cache.embed factory fun _ => .ok [[1]]
    (r, ⟨cache, if s.cache.embeddingsResolved then s.called else s.called ++ [factory]⟩)
  | s, op => (failoverAnswer op, s)

/-- Three requests, one after the other. -/
def threeRequests : Pool Nat (Embedder Unit) Op Reply Outcome :=
  Pool.schedule lateService
    { state := {}
      history := []
      tasks := [(0, Outcome.completed <$> (handleComplete ⟨true, fun _ => ""⟩ hiRequest).run),
        (1, Outcome.completed <$> (handleComplete ⟨true, fun _ => ""⟩ hiRequest).run),
        (2, Outcome.streamed <$> (handleStream ⟨true, fun _ => ""⟩ hiRequest).run)] }
    (List.replicate 10 0 ++ List.replicate 40 1 ++ List.replicate 40 2)

/-- The first request fails, and the others share the service. -/
theorem embeddings_resolved_once_late :
    threeRequests.state.called.map Except.isOk = [false, true] ∧
      threeRequests.history.filterMap (fun e => e.2.1.vector.map (e.1, ·)) =
        [(1, [1]), (1, [1]), (2, [1]), (2, [1])] ∧
      ∀ tag ev vector, (tag, ev) ∈ threeRequests.history → Op.vector ev.1 = some vector →
        ∃ service, .ok (some service) ∈ threeRequests.state.called ∧ [vector] = [[1]] := by
  have hchecked : (threeRequests.tasks.map Prod.fst).Nodup ∧
      threeRequests.state.called.map Except.isOk = [false, true] ∧
      threeRequests.history.filterMap (fun e => e.2.1.vector.map (e.1, ·)) =
        [(1, [1]), (1, [1]), (2, [1]), (2, [1])] := by
    unfold threeRequests handleComplete handleStream
    rw [walk_evaluates]
    decide +kernel
  obtain ⟨hnodup, hcalled, hvectors⟩ := hchecked
  let computes : Unit → String → List Embedding → Prop := fun _ _ vs => vs = [[1]]
  have hserve : ∀ state op, EmbedderHandles computes state op (lateService state op).1
      (lateService state op).2 := by
    intro state op
    cases op with
    | embed text =>
      exact ⟨_, fun _ => .ok [[1]], fun _ vs heq => (Except.ok.inj heq).symm, rfl, rfl⟩
    | _ => rfl
  have hreach : Pool.Reachable (embedding computes ⟨true, fun _ => ""⟩ fun _ => hiRequest)
      threeRequests := by
    refine .schedule hserve (.starts .initial ?_) _
    simp only [List.forall_mem_cons]
    exact ⟨.inl rfl, .inl rfl, .inr rfl, nofun⟩
  exact ⟨hcalled, hvectors, (embeddings_resolved_once computes _ _ hreach hnodup).2.1⟩

end InferenceGateway.Orchestrator
