import InferenceGateway.Library.Execution
import InferenceGateway.Orchestrator.Bookkeeping
import InferenceGateway.Orchestrator.Evaluation
import InferenceGateway.Orchestrator.Traces

/-!
# Serving without embeddings

Without embeddings the semantic tier is left out and everything else should go on. That is
so when the factory returns nothing. An exception of `embed` is caught nowhere: it ends
the request, before routing or after a backend has answered.
-/
namespace InferenceGateway.Orchestrator
open Library Library.Action

/-- The operations of the semantic tier. -/
def Op.touchesL2 : Op → Bool
  | .embed _ | .findSimilar .. | .insertEntry _ => true
  | _ => false

variable {α Tier2 State : Type} (l2 : Program.Handler Op Reply Tier2)
  (main : Program.Handler Op Reply State)

/-- The semantic tier next to the limiter, L1, the breakers, the clients, the consumer and
everything else. -/
def withL2 : Program.Handler Op Reply (Tier2 × State) :=
  Program.beside Op.touchesL2 (fun s op => ((l2 s.1 op).1, ((l2 s.1 op).2, s.2))) main

/-- The same tier without an embedding service. -/
def disabled : Program.Handler Op Reply Tier2 := fun k op =>
  match op with
  | .embed _ => (.ok none, k)
  | op => l2 k op

/-- How the embedding service can be unavailable to a request: the factory returns nothing,
the call in `get` raises, or only the call in `put` does, and `get` has found no row. -/
inductive EmbeddingsUnavailable (req : ChatRequest) (k : Tier2) : Prop
  | factory (h : ∀ k text, l2 k (.embed text) = (.ok none, k))
  | onGet {e : Raised} (h : (l2 k (.embed (promptText req.messages))).1 = .error e)
  | onPut {k₁ k₂ : Tier2} {vector : Embedding} {e : Raised}
      (hget : l2 k (.embed (promptText req.messages)) = (.ok (some vector), k₁))
      (hmiss : l2 k₁ (.findSimilar req.model vector) = (.ok none, k₂))
      (hput : (l2 k₂ (.embed (promptText req.messages))).1 = .error e)

/-- Which exceptions come from the embedding service: the gateway raises none of them
itself, and no other operation does. -/
structure EmbeddingErrors (FromEmbeddings : Raised → Prop) : Prop where
  embed : ∀ k text e, (l2 k (.embed text)).1 = .error e → FromEmbeddings e
  store : ∀ k op e, (∀ text, op ≠ .embed text) → (l2 k op).1 = .error e → ¬ FromEmbeddings e
  others : ∀ s op e, (main s op).1 = .error e → ¬ FromEmbeddings e
  refusal : ¬ FromEmbeddings .rateLimitExceeded
  noBackends : ¬ FromEmbeddings .noBackendsAvailable
  unavailable : ∀ err, ¬ FromEmbeddings (.allBackendsUnavailable err)
  stop : ∀ streaming, ¬ FromEmbeddings (stopIteration streaming)

/-- The request ends as with L2 disabled, and leaves the same limiter, L1, breaker, latency
and log state, having yielded the same. -/
def ServesL1Only (x : Action α) (k : Tier2) (s : State) : Prop :=
  (x.exec (withL2 l2 main) (k, s)).1 = (x.exec (withL2 (disabled l2) main) (k, s)).1 ∧
    (x.exec (withL2 l2 main) (k, s)).2.2 = (x.exec (withL2 (disabled l2) main) (k, s)).2.2

/-- A call of the embedding service that raises. -/
def EmbedRaised (ev : Event) : Prop := ∃ text e, ev = ⟨.embed text, .error e⟩

/-! ## An embedding error ends the request -/

section Telltale
variable {FromEmbeddings : Raised → Prop} {trace trace' : List Event} {r : Except Raised α}

/-- What is promised of the replies: embedding calls and no others raise embedding errors. -/
def Attributed (FromEmbeddings : Raised → Prop) : (op : Op) → Reply op → Prop
  | .embed _, r => ∀ e, r = .error e → FromEmbeddings e
  | _, r => ∀ e, r = .error e → ¬ FromEmbeddings e

/-- The run ends with an embedding error exactly if an embedding call has raised. -/
def Telltale (FromEmbeddings : Raised → Prop) (trace : List Event) (r : Except Raised α) : Prop :=
  (∃ ev ∈ trace, EmbedRaised ev) ↔ ∃ e, r = .error e ∧ FromEmbeddings e

theorem attributed_iff {op : Op} {e : Raised} (h : Attributed FromEmbeddings op (.error e)) :
    EmbedRaised ⟨op, .error e⟩ ↔ FromEmbeddings e := by
  cases op with
  | embed text => exact iff_of_true ⟨text, e, rfl⟩ (h e rfl)
  | _ => exact iff_of_false (fun ⟨_, _, heq⟩ => nomatch heq) (h e rfl)

theorem Telltale.of_ended (hended : Ended trace r)
    (hkept : ∀ ev ∈ trace, Attributed FromEmbeddings ev.1 ev.2) :
    Telltale FromEmbeddings trace r := by
  constructor
  · rintro ⟨_, hmem, text, e, rfl⟩
    exact ⟨e, hended.eq_of_raised hmem, hkept _ hmem e rfl⟩
  · rintro ⟨e, rfl, he⟩
    obtain ⟨op, hmem⟩ := hended.raised
    exact ⟨_, hmem, (attributed_iff (hkept _ hmem)).mpr he⟩

theorem Telltale.append (hnone : ∀ ev ∈ trace, ¬ EmbedRaised ev)
    (h : Telltale FromEmbeddings trace' r) : Telltale FromEmbeddings (trace ++ trace') r := by
  refine Iff.trans ?_ h
  constructor
  · rintro ⟨ev, hmem, hev⟩
    obtain hl | hr := List.mem_append.mp hmem
    · exact absurd hev (hnone ev hl)
    · exact ⟨ev, hr, hev⟩
  · rintro ⟨ev, hmem, hev⟩
    exact ⟨ev, List.mem_append_right _ hmem, hev⟩

theorem Telltale.cons {ev : Event} (hev : ¬ EmbedRaised ev) (h : Telltale FromEmbeddings trace r) :
    Telltale FromEmbeddings (ev :: trace) r :=
  .append (List.forall_mem_singleton.mpr hev) h

theorem Telltale.of_neither (hnone : ∀ ev ∈ trace, ¬ EmbedRaised ev)
    (hresult : ∀ e, r = .error e → ¬ FromEmbeddings e) : Telltale FromEmbeddings trace r :=
  iff_of_false (fun ⟨ev, hmem, hev⟩ => hnone ev hmem hev) fun ⟨e, heq, he⟩ => hresult e heq he

theorem not_embedRaised_of_smooth (h : Smooth trace) : ∀ ev ∈ trace, ¬ EmbedRaised ev := by
  rintro _ hmem ⟨text, e, rfl⟩
  obtain ⟨a, ha⟩ := h _ hmem
  exact nomatch ha

theorem CallTrace.not_embed {backend : Backend} {client : Client} {r : Except Raised Unit}
    (h : CallTrace backend client trace r) : ∀ ev ∈ trace, ∀ text, ev.1 ≠ .embed text := by
  intro ev hmem text heq
  have hop := h.ops ev hmem
  rwa [heq] at hop

end Telltale

section Requests
variable {FromEmbeddings : Raised → Prop} {req : ChatRequest} {streaming : Bool}
  {trace : List Event}

/-- An exception that is no embedding call's is no embedding error. -/
theorem not_fromEmbeddings {e : Raised}
    (hkept : ∀ ev ∈ trace, Attributed FromEmbeddings ev.1 ev.2)
    (hno : ∀ ev ∈ trace, ∀ text, ev.1 ≠ .embed text) (hraised : ∃ op, ⟨op, .error e⟩ ∈ trace) :
    ¬ FromEmbeddings e := by
  obtain ⟨op, hmem⟩ := hraised
  intro he
  obtain ⟨text, e', heq⟩ := (attributed_iff (hkept _ hmem)).mpr he
  exact hno _ hmem text (congrArg Sigma.fst heq)

theorem BodyTrace.telltale {backend : Backend} {client : Client} {r : Except Raised (Pass α)}
    (hunavailable : ∀ err, ¬ FromEmbeddings (.allBackendsUnavailable err))
    (h : BodyTrace req streaming backend client trace r)
    (hkept : ∀ ev ∈ trace, Attributed FromEmbeddings ev.1 ev.2) :
    Telltale FromEmbeddings trace r := by
  have hquiet : ∀ {tr : List Event}, (∀ ev ∈ tr, ∀ text, ev.1 ≠ .embed text) →
      ∀ ev ∈ tr, ¬ EmbedRaised ev := fun hno _ hmem ⟨text, _, heq⟩ =>
    hno _ hmem text (congrArg Sigma.fst heq)
  cases h with
  | cancelled hcall he =>
    refine .of_neither (hquiet hcall.not_embed) fun e heq => ?_
    obtain rfl := Except.error.inj heq
    exact not_fromEmbeddings hkept hcall.not_embed hcall.raised
  | @failed call after e r hcall he hops hended =>
    have hafter : ∀ ev ∈ after, ∀ text, ev.1 ≠ .embed text := fun ev hmem text heq => by
      have hop := hops ev hmem
      rw [heq] at hop
      exact hop
    obtain ⟨-, hkept⟩ := List.forall_mem_append.mp hkept
    refine .append (hquiet hcall.not_embed) (.of_neither (hquiet hafter) fun e' heq => ?_)
    cases r with
    | error e'' =>
      obtain rfl := Except.error.inj heq
      exact not_fromEmbeddings hkept hafter hended.raised
    | ok u =>
      dsimp only [Except.bind] at heq
      split at heq
      · obtain rfl := Except.error.inj heq
        exact hunavailable _
      · exact nomatch heq
  | answered hcall hlogs _ =>
    exact .of_ended (Ended.after hcall.smooth (hlogs.ended fun _ _ h => h.ended)) hkept

theorem WalkTrace.telltale {rem : List (Backend × Client)} {err : Option Raised}
    {r : Except Raised α} (hunavailable : ∀ err, ¬ FromEmbeddings (.allBackendsUnavailable err))
    (hstop : ¬ FromEmbeddings (stopIteration streaming))
    (h : WalkTrace req streaming rem err trace r)
    (hkept : ∀ ev ∈ trace, Attributed FromEmbeddings ev.1 ev.2) :
    Telltale FromEmbeddings trace r := by
  have hask : ∀ {rem : List (Backend × Client)} {reply : Except Raised Backend} {id : Uuid}
      {reply' : Except Raised Bool},
      ∀ ev ∈ [(⟨.select (rem.map Prod.fst) (features req), reply⟩ : Event), ⟨.allow id, reply'⟩],
        ¬ EmbedRaised ev := by
    simp [EmbedRaised]
  induction h with
  | @exhausted err trace r hlogs =>
    have hended := Telltale.of_ended (hlogs.ended fun _ _ h => h.ended) hkept
    cases r with
    | error e => simpa [Telltale, Except.bind] using hended
    | ok u =>
      refine .of_neither (fun ev hmem hev => ?_) fun e heq => Except.error.inj heq ▸ hunavailable _
      obtain ⟨e, heq, -⟩ := hended.mp ⟨ev, hmem, hev⟩
      exact nomatch heq
  | unselected => exact .of_ended ⟨[], _, rfl, .nil⟩ hkept
  | stopped => exact .of_neither (by simp [EmbedRaised]) fun e heq => Except.error.inj heq ▸ hstop
  | unasked => exact .of_ended (Ended.cons _ ⟨[], _, rfl, .nil⟩) hkept
  | rejected _ _ ih =>
    refine .append hask (ih fun ev hmem => hkept ev ?_)
    exact List.mem_cons_of_mem _ (List.mem_cons_of_mem _ hmem)
  | raised _ hbody =>
    have htail := hbody.telltale hunavailable fun ev hmem =>
      hkept ev (List.mem_cons_of_mem _ (List.mem_cons_of_mem _ hmem))
    exact .append hask (by simpa [Telltale] using htail)
  | done _ hbody =>
    have htail := hbody.telltale hunavailable fun ev hmem =>
      hkept ev (List.mem_cons_of_mem _ (List.mem_cons_of_mem _ hmem))
    exact .append hask (by simpa [Telltale] using htail)
  | next _ hbody _ ih =>
    have hrest := fun ev hmem => hkept ev (List.mem_cons_of_mem _ (List.mem_cons_of_mem _ hmem))
    obtain ⟨hbefore, hafter⟩ := List.forall_mem_append.mp hrest
    have htail := hbody.telltale hunavailable hbefore
    refine .append hask (.append (fun ev hmem hev => ?_) (ih hafter))
    obtain ⟨e, heq, -⟩ := htail.mp ⟨ev, hmem, hev⟩
    exact nomatch heq

/-- A request ends with an embedding error exactly if an embedding call has raised. -/
theorem RequestTrace.telltale {r : Except Raised α} {l2 : Program.Handler Op Reply Tier2}
    {main : Program.Handler Op Reply State} (hE : EmbeddingErrors l2 main FromEmbeddings)
    (h : RequestTrace req streaming trace r)
    (hkept : ∀ ev ∈ trace, Attributed FromEmbeddings ev.1 ev.2) :
    Telltale FromEmbeddings trace r := by
  cases h with
  | unread => exact .of_ended ⟨[], _, rfl, .nil⟩ hkept
  | unreserved => exact .of_ended (Ended.cons _ ⟨[], _, rfl, .nil⟩) hkept
  | denied =>
    refine .of_neither (by simp [EmbedRaised]) fun e heq => ?_
    exact Except.error.inj heq ▸ hE.refusal
  | interrupted hlead _ hended => exact .of_ended (Ended.after hlead.smooth hended) hkept
  | hit hlead hlogs =>
    exact .of_ended (Ended.after hlead.smooth (hlogs.ended fun _ _ h => h.ended)) hkept
  | unavailable hlead =>
    refine .of_neither (not_embedRaised_of_smooth (hlead.smooth.append (Smooth.cons _ .nil)))
      fun e heq => ?_
    exact Except.error.inj heq ▸ hE.noBackends
  | walked hlead _ hwalk =>
    obtain ⟨-, hrest⟩ := List.forall_mem_append.mp hkept
    obtain ⟨-, hrest⟩ := List.forall_mem_cons.mp hrest
    refine .append (not_embedRaised_of_smooth hlead.smooth) (.cons (by simp [EmbedRaised]) ?_)
    exact hwalk.telltale hE.unavailable (hE.stop streaming) hrest

end Requests

/-! ## Without such an error the request goes on as without L2 -/

section Lockstep
variable {l2 : Program.Handler Op Reply Tier2} {main : Program.Handler Op Reply State}
  {β : Type} {k₁ k₂ : Tier2} {s : State}

/-- If no embedding call raises, the action ends and leaves the same with L2 in one state
as with L2 disabled and in another. -/
def Degrades (l2 : Program.Handler Op Reply Tier2) (main : Program.Handler Op Reply State)
    (x : Action α) (k₁ k₂ : Tier2) (s : State) : Prop :=
  (∀ ev ∈ x.trace (withL2 l2 main) (k₁, s), ¬ EmbedRaised ev) →
    (x.exec (withL2 l2 main) (k₁, s)).1 = (x.exec (withL2 (disabled l2) main) (k₂, s)).1 ∧
    (x.exec (withL2 l2 main) (k₁, s)).2.2 = (x.exec (withL2 (disabled l2) main) (k₂, s)).2.2

theorem withL2_shown (l2 : Program.Handler Op Reply Tier2) (main : Program.Handler Op Reply State)
    {op : Op} (hop : op.touchesL2 = false) (k : Tier2) (s : State) :
    withL2 l2 main (k, s) op = ((main s op).1, (k, (main s op).2)) :=
  Program.beside_shown hop k s

theorem withL2_hidden (l2 : Program.Handler Op Reply Tier2) (main : Program.Handler Op Reply State)
    {op : Op} (hop : op.touchesL2 = true) (k : Tier2) (s : State) :
    withL2 l2 main (k, s) op = ((l2 k op).1, ((l2 k op).2, s)) :=
  Program.beside_hidden hop (k, s)

theorem Degrades.throw (e : Raised) : Degrades l2 main (throw e : Action α) k₁ k₂ s :=
  fun _ => ⟨rfl, rfl⟩

/-- An operation outside the semantic tier. -/
theorem Degrades.perform {op : Op} {f : Ret op → Action β} (hop : op.touchesL2 = false)
    (hf : ∀ a s', Degrades l2 main (f a) k₁ k₂ s') :
    Degrades l2 main (call op >>= f) k₁ k₂ s := by
  intro hquiet
  rw [trace_bind, exec_call, withL2_shown l2 main hop] at hquiet
  rw [exec_bind, exec_bind, exec_call, exec_call, withL2_shown l2 main hop,
    withL2_shown (disabled l2) main hop]
  cases hmain : main s op with
  | mk r s' =>
    rw [hmain] at hquiet
    cases r with
    | error e => exact ⟨rfl, rfl⟩
    | ok a => exact hf a s' fun ev hev => hquiet ev (List.mem_append_right _ hev)

theorem Degrades.of_avoids {x : Action α} (h : Program.Avoids Op.touchesL2 x.run) :
    Degrades l2 main x k₁ k₂ s := by
  intro _
  have hexec : ∀ (l2 : Program.Handler Op Reply Tier2) k, x.exec (withL2 l2 main) (k, s) =
      ((x.exec main s).1, (k, (x.exec main s).2)) := fun l2 k => (h.exec_beside k s).1
  rw [hexec, hexec]
  exact ⟨rfl, rfl⟩

/-- The operations of the semantic tier while embedding calls for this text raise. -/
abbrev brokenEmbeddings (text : String) : Contract :=
  ⟨fun op => op.touchesL2 = true → op = .embed text,
    fun op r => op = .embed text → ∃ e, r = .error e⟩

/-- An action whose first operation on the semantic tier is an embedding call that raises. -/
theorem Degrades.of_broken {x : Action α} {text : String} {e : Raised}
    (h : wp (brokenEmbeddings text) x fun _ _ => True)
    (hraises : (l2 k₁ (.embed text)).1 = .error e) :
    Degrades l2 main x k₁ k₂ s := by
  intro hquiet
  have hpromised : ∀ s op, op.touchesL2 = false →
      (brokenEmbeddings text).promised op (main s op).1 := by
    rintro s _ hop rfl
    exact absurd hop (by simp [Op.touchesL2])
  have hseen : Program.wp ⟨fun op => op.touchesL2 = true → ∀ s : State,
      EmbedRaised ⟨op, (l2 k₁ op).1⟩, (brokenEmbeddings text).promised⟩ x.run fun _ _ => True := by
    refine Program.wp_weaken h (fun op hop hL2 _ => ?_) fun _ _ hr => hr
    obtain rfl := hop hL2
    exact ⟨text, e, by rw [hraises]⟩
  have hexec : ∀ (side : Program.Handler Op Reply Tier2) k, x.exec (withL2 side main) (k, s) =
      ((x.exec main s).1, (k, (x.exec main s).2)) := fun side k =>
    Program.exec_beside_of_unseen hpromised hseen hquiet _ k
  rw [hexec, hexec]
  exact ⟨rfl, rfl⟩

/-- The part of `TwoTierCache.get` that needs embeddings. -/
def semanticGet (model promptText : String) : Action (Option CacheHit) := do
  match ← call (.embed promptText) with
  | none => return none
  | some embedding =>
    let entry ← call (.findSimilar model embedding)
    return entry.map fun e => ⟨e.response, e.tokensIn, e.tokensOut, .l2⟩

theorem cacheGet_eq (model promptHash promptText : String) :
    cacheGet model promptHash promptText = call (.exactGet model promptHash) >>= fun hit =>
      match hit with
      | some hit => return some hit
      | none => semanticGet model promptText := rfl

theorem exec_semanticGet_disabled (model promptText : String) (k : Tier2) :
    (semanticGet model promptText).exec (withL2 (disabled l2) main) (k, s) =
      (.ok none, (k, s)) := by
  rw [semanticGet, exec_bind, exec_call, withL2_hidden (disabled l2) main rfl]
  rfl

theorem exec_semanticGet_miss {model promptText : String} {k : Tier2} {vector : Embedding}
    (hget : l2 k (.embed promptText) = (.ok (some vector), k₁))
    (hmiss : l2 k₁ (.findSimilar model vector) = (.ok none, k₂)) :
    (semanticGet model promptText).exec (withL2 l2 main) (k, s) = (.ok none, (k₂, s)) := by
  rw [semanticGet, exec_bind, exec_call, withL2_hidden l2 main rfl, hget]
  dsimp only
  rw [exec_bind, exec_call, withL2_hidden l2 main rfl, hmiss]
  rfl

/-- The lookup of an unavailable service: a hit, or a miss after which embedding calls
raise. -/
theorem Degrades.lookup_bind {gw : RequestOrchestrator} {req : ChatRequest} {k : Tier2}
    (hbypass : req.bypassCache = false) (hun : EmbeddingsUnavailable l2 req k)
    (hfactory : ¬ ∀ k text, l2 k (.embed text) = (.ok none, k)) {f : Option CacheHit → Action β}
    (hhit : ∀ hit s', Degrades l2 main (f (some hit)) k k s')
    (hmiss : ∀ k' e s', (l2 k' (.embed (promptText req.messages))).1 = .error e →
      Degrades l2 main (f none) k' k s') :
    Degrades l2 main (lookup gw req >>= f) k k s := by
  rw [lookup, if_neg (by simp [hbypass]), cacheGet_eq, bind_assoc]
  refine .perform rfl fun hit s' => ?_
  cases hit with
  | some hit => simpa using hhit hit s'
  | none =>
    intro hquiet
    cases hun with
    | factory h => exact absurd h hfactory
    | @onGet e h =>
      have hraised : EmbedRaised ⟨.embed (promptText req.messages), (l2 k _).1⟩ := ⟨_, e, by rw [h]⟩
      refine absurd hraised (hquiet _ ?_)
      dsimp only
      rw [semanticGet, bind_assoc, trace_bind, trace_call, withL2_hidden l2 main rfl]
      exact List.mem_append_left _ (List.mem_singleton_self _)
    | @onPut k₁ k₂ vector e hget hfind hput =>
      dsimp only at hquiet ⊢
      rw [exec_bind_ok (exec_semanticGet_miss hget hfind),
        exec_bind_ok (exec_semanticGet_disabled ..)]
      refine hmiss k₂ e s' hput fun ev hev => hquiet ev ?_
      rw [trace_bind, exec_semanticGet_miss hget hfind]
      exact List.mem_append_right _ hev

end Lockstep

section Handlers
variable {l2 : Program.Handler Op Reply Tier2} {main : Program.Handler Op Reply State}
  {gw : RequestOrchestrator} {req : ChatRequest} {k : Tier2} {s : State}

/-- Up to its first embedding call a request does not touch the semantic tier. -/
theorem admits_brokenEmbeddings : Admits (brokenEmbeddings (promptText req.messages)) gw req where
  allowed op hop hL2 := by cases op <;> simp_all [Op.touchesCache, Op.touchesL2]
  lookup := by
    unfold Orchestrator.lookup
    split
    · exact .pure _
    · rename_i hbypass
      have hbypass : req.bypassCache = false := by simpa using hbypass
      refine Straight.perform (fun h => nomatch h) hbypass fun hit => ?_
      cases hit with
      | some hit => exact .pure _
      | none => exact .fails (fun _ => rfl) hbypass fun r hr => hr rfl
  store content tokensIn tokensOut := by
    unfold Orchestrator.store
    split
    · exact .pure _
    · rename_i hbypass
      have hbypass : req.bypassCache = false := by simpa using hbypass
      refine Straight.perform (fun h => nomatch h) hbypass fun _ => ?_
      exact .fails (fun _ => rfl) hbypass fun r hr => hr rfl

/-- The operations outside the semantic tier. -/
abbrev avoidingL2 : Contract := ⟨fun op => op.touchesL2 = false, fun _ _ => True⟩

theorem straight_incr_avoidingL2 (metric : String) (labels : List (String × String)) :
    Straight avoidingL2 (fun _ => True) (incr gw metric labels) := by
  unfold incr
  split
  · exact .call rfl trivial
  · exact .pure _

theorem straight_chargeHit_avoidingL2 (start : Time)
    (reservation : Resilience.RateLimit.ReservationId) (hit : CacheHit) :
    Straight avoidingL2 (fun _ => True) (chargeHit gw req start reservation hit) :=
  .perform rfl trivial fun _ => .perform rfl trivial fun _ => .perform rfl trivial fun _ =>
    straight_incr_avoidingL2 _ _

theorem avoids_completeHit (start : Time) (reservation : Resilience.RateLimit.ReservationId)
    (hit : CacheHit) :
    Program.Avoids Op.touchesL2 (completeHit gw req start reservation hit).run :=
  wp_mono ((straight_chargeHit_avoidingL2 start reservation hit).bind fun _ => .pure _)
    fun _ _ _ => trivial

theorem avoids_streamHit (start : Time) (reservation : Resilience.RateLimit.ReservationId)
    (hit : CacheHit) : Program.Avoids Op.touchesL2 (streamHit gw req start reservation hit).run :=
  wp_mono ((straight_chargeHit_avoidingL2 start reservation hit).bind fun _ =>
    .perform rfl trivial fun _ => .call rfl trivial) fun _ _ _ => trivial

theorem degrades_pipeline (hbypass : req.bypassCache = false)
    (hun : EmbeddingsUnavailable l2 req k)
    (hfactory : ¬ ∀ k text, l2 k (.embed text) = (.ok none, k))
    {charged : Time → Resilience.RateLimit.ReservationId → CacheHit → Action α}
    {loop : Time → Resilience.RateLimit.ReservationId → List (Backend × Client) → Action α}
    (hcharged : ∀ start reservation hit,
      Program.Avoids Op.touchesL2 (charged start reservation hit).run)
    (hloop : ∀ start reservation, wp (brokenEmbeddings (promptText req.messages))
      (route req (loop start reservation)) fun _ _ => True) :
    Degrades l2 main (pipeline gw req charged loop) k k s := by
  refine .perform rfl fun start s' => .perform rfl fun reserved s' => ?_
  cases reserved with
  | none => exact .throw _
  | some reservation =>
    refine .lookup_bind hbypass hun hfactory (fun hit s' => .of_avoids (hcharged _ _ _)) ?_
    exact fun k' e s' hraises => .of_broken (hloop start reservation) hraises

/-- Embedding calls, and no other operation, raise embedding errors. -/
theorem EmbeddingErrors.attributed {FromEmbeddings : Raised → Prop}
    (hE : EmbeddingErrors l2 main FromEmbeddings) (s : Tier2 × State) (op : Op) :
    Attributed FromEmbeddings op (withL2 l2 main s op).1 := by
  obtain ⟨k, s⟩ := s
  cases hop : op.touchesL2 with
  | false =>
    have hreply : (withL2 l2 main (k, s) op).1 = (main s op).1 := by rw [withL2_shown l2 main hop]
    rw [hreply]
    cases op with
    | embed text => exact nomatch hop
    | _ => exact hE.others s _
  | true =>
    have hreply : (withL2 l2 main (k, s) op).1 = (l2 k op).1 := by rw [withL2_hidden l2 main hop]
    rw [hreply]
    cases op with
    | embed text => exact hE.embed k text
    | findSimilar model vector => exact fun e => hE.store k _ e (by simp)
    | insertEntry entry => exact fun e => hE.store k _ e (by simp)
    | _ => exact nomatch hop

theorem EmbeddingErrors.disabled {FromEmbeddings : Raised → Prop}
    (hE : EmbeddingErrors l2 main FromEmbeddings) :
    EmbeddingErrors (disabled l2) main FromEmbeddings where
  embed _ _ _ h := nomatch h
  store k op e hop h := by
    cases op with
    | embed text => exact absurd rfl (hop text)
    | _ => exact hE.store k _ e hop h
  others := hE.others
  refusal := hE.refusal
  noBackends := hE.noBackends
  unavailable := hE.unavailable
  stop := hE.stop

/-- A request that has a trace as described ends with an embedding error exactly if an
embedding call has raised. -/
theorem telltale_exec {FromEmbeddings : Raised → Prop} (hE : EmbeddingErrors l2 main FromEmbeddings)
    {streaming : Bool} {x : Action α}
    (hx : wp (.expecting (Attributed FromEmbeddings)) x (RequestTrace req streaming)) :
    Telltale FromEmbeddings (x.trace (withL2 l2 main) (k, s)) (x.exec (withL2 l2 main) (k, s)).1 :=
  Program.wp_exec (wp_mono (Program.wp_kept hx) fun _ _ hr =>
    hr.2.telltale hE fun ev hev => (hr.1 ev hev).2)
    (fun s op _ => hE.attributed s op) (k, s)

/-- With L2 disabled no embedding call raises. -/
theorem quiet_disabled {x : Action α} :
    ∀ ev ∈ x.trace (withL2 (disabled l2) main) (k, s), ¬ EmbedRaised ev := by
  refine Program.forall_mem_trace (fun s op hraised => ?_) (k, s)
  obtain ⟨text, e, heq⟩ := hraised
  obtain rfl : op = .embed text := congrArg Sigma.fst heq
  exact nomatch eq_of_heq (Sigma.mk.inj heq).2

theorem withL2_of_factory (h : ∀ k text, l2 k (.embed text) = (.ok none, k)) :
    withL2 (disabled l2) main = withL2 l2 main := by
  have hdisabled : disabled l2 = l2 := by
    funext k op
    cases op with
    | embed text => exact (h k text).symm
    | _ => rfl
  rw [hdisabled]

theorem degrades_handler (hun : EmbeddingsUnavailable l2 req k)
    {charged : Time → Resilience.RateLimit.ReservationId → CacheHit → Action α}
    {loop : Time → Resilience.RateLimit.ReservationId → List (Backend × Client) → Action α}
    {streaming : Bool} (hcharged : ∀ start reservation hit,
      Program.Avoids Op.touchesL2 (charged start reservation hit).run)
    (hlogs : ∀ {C}, Admits C gw req → ∀ start reservation hit,
      wp C (charged start reservation hit) (Logs HitOp (Tail streaming) 200))
    (hwalk : ∀ {C}, Admits C gw req → ∀ start reservation remaining,
      wp C (loop start reservation remaining) (WalkTrace req streaming remaining none)) :
    Degrades l2 main (pipeline gw req charged loop) k k s := by
  by_cases hbypass : req.bypassCache = true
  · have hC : Admits avoidingL2 gw req :=
      .of_bypass (fun op hop => by cases op <;> simp_all [Op.touchesCache, Op.touchesL2])
        fun h => absurd h (by simp [hbypass])
    exact .of_avoids (wp_mono (request_trace hC (hlogs hC) (hwalk hC)) fun _ _ _ => trivial)
  have hbypass : req.bypassCache = false := by simpa using hbypass
  by_cases hfactory : ∀ k text, l2 k (.embed text) = (.ok none, k)
  · intro _
    rw [withL2_of_factory hfactory]
    exact ⟨rfl, rfl⟩
  have hC : Admits (brokenEmbeddings (promptText req.messages)) gw req := admits_brokenEmbeddings
  refine degrades_pipeline hbypass hun hfactory hcharged fun start reservation => ?_
  exact wp_mono (route_trace hC (hwalk hC start reservation)) fun _ _ _ => trivial

theorem degrades_handleComplete (hun : EmbeddingsUnavailable l2 req k) :
    Degrades l2 main (handleComplete gw req) k k s :=
  degrades_handler hun avoids_completeHit logs_completeHit walk_completeLoop

theorem degrades_handleStream (hun : EmbeddingsUnavailable l2 req k) :
    Degrades l2 main (handleStream gw req) k k s :=
  degrades_handler hun avoids_streamHit logs_streamHit walk_streamLoop

/-- A request that is served as with L2 disabled has seen no embedding error. -/
theorem ServesL1Only.quiet {FromEmbeddings : Raised → Prop}
    (hE : EmbeddingErrors l2 main FromEmbeddings) {streaming : Bool} {x : Action α}
    (hx : wp (.expecting (Attributed FromEmbeddings)) x (RequestTrace req streaming))
    (h : ServesL1Only l2 main x k s) :
    ∀ ev ∈ x.trace (withL2 l2 main) (k, s), ¬ EmbedRaised ev := by
  intro ev hmem hraised
  obtain ⟨e, hresult, he⟩ := (telltale_exec hE hx).mp ⟨ev, hmem, hraised⟩
  obtain ⟨ev', hmem', hraised'⟩ := (telltale_exec hE.disabled hx).mpr ⟨e, h.1 ▸ hresult, he⟩
  exact quiet_disabled ev' hmem' hraised'

/-- Without embeddings either handler serves a request as with L2 disabled if none of its
embedding calls raises, and only then, if embedding errors are told from other
exceptions. -/
theorem servesL1Only_iff (gw : RequestOrchestrator) (req : ChatRequest)
    (l2 : Program.Handler Op Reply Tier2) (main : Program.Handler Op Reply State) (k : Tier2)
    (s : State) (hun : EmbeddingsUnavailable l2 req k) :
    ((∀ ev ∈ (handleComplete gw req).trace (withL2 l2 main) (k, s), ¬ EmbedRaised ev) →
      ServesL1Only l2 main (handleComplete gw req) k s) ∧
    ((∀ ev ∈ (handleStream gw req).trace (withL2 l2 main) (k, s), ¬ EmbedRaised ev) →
      ServesL1Only l2 main (handleStream gw req) k s) ∧
    ∀ FromEmbeddings, EmbeddingErrors l2 main FromEmbeddings →
      (ServesL1Only l2 main (handleComplete gw req) k s →
        ∀ ev ∈ (handleComplete gw req).trace (withL2 l2 main) (k, s), ¬ EmbedRaised ev) ∧
      (ServesL1Only l2 main (handleStream gw req) k s →
        ∀ ev ∈ (handleStream gw req).trace (withL2 l2 main) (k, s), ¬ EmbedRaised ev) := by
  refine ⟨degrades_handleComplete hun, degrades_handleStream hun, fun FromEmbeddings hE => ⟨?_, ?_⟩⟩
  · exact ServesL1Only.quiet hE (handleComplete_trace (.of_allowed fun _ => trivial))
  · exact ServesL1Only.quiet hE (handleStream_trace (.of_allowed fun _ => trivial))

end Handlers

/-- An embedding service that goes down after its first call. -/
def lateOutage : Program.Handler Op Reply Nat := fun calls op =>
  match op with
  | .embed _ =>
    (if calls = 0 then .ok (some []) else .error (.failure "connection refused"), calls + 1)
  | op => (failoverAnswer op, calls)

theorem lateOutage_unavailable : EmbeddingsUnavailable lateOutage hiRequest 0 :=
  .onPut rfl rfl rfl

theorem failoverAnswer_error {op : Op} {e : Raised} (h : failoverAnswer op = .error e) :
    e ≠ .failure "connection refused" := by
  unfold failoverAnswer at h
  split at h <;> simp only [Except.error.injEq, reduceCtorEq] at h
  all_goals subst h; simp

theorem lateOutage_errors : EmbeddingErrors lateOutage
    (fun (s : Unit) op => (failoverAnswer op, s)) (· = .failure "connection refused") where
  embed k text e h := by
    simp only [lateOutage] at h
    split at h
    · exact nomatch h
    · exact (Except.error.inj h).symm
  store k op e hop h := by
    have hop : lateOutage k op = (failoverAnswer op, k) := by
      unfold lateOutage
      split
      · exact absurd rfl (hop _)
      · rfl
    rw [hop] at h
    exact failoverAnswer_error h
  others _ _ _ h := failoverAnswer_error h
  refusal h := nomatch h
  noBackends h := nomatch h
  unavailable _ h := nomatch h
  stop streaming h := by cases streaming <;> simp [stopIteration] at h

/-- Whether the event is no call of the embedding service that raises. -/
def embedReturned : Event → Bool
  | ⟨.embed _, .error _⟩ => false
  | _ => true

theorem not_embedRaised_of_all {trace : List Event} (h : trace.all embedReturned = true) :
    ∀ ev ∈ trace, ¬ EmbedRaised ev := by
  rintro _ hmem ⟨text, e, rfl⟩
  exact Bool.false_ne_true (List.all_eq_true.mp h _ hmem)

/-- A request that no backend answers is served as without embeddings: there is no write-back. One
that is answered would have to get through its write-back. -/
theorem servesL1Only_lateOutage :
    let gw : RequestOrchestrator := ⟨false, fun _ => "digest"⟩
    ServesL1Only lateOutage (fun (s : Unit) op => (outageAnswer op, s))
      (handleComplete gw hiRequest) 0 () ∧
    let main : Program.Handler Op Reply Unit := fun s op => (failoverAnswer op, s)
    (ServesL1Only lateOutage main (handleComplete gw hiRequest) 0 () →
      ∀ ev ∈ (handleComplete gw hiRequest).trace (withL2 lateOutage main) (0, ()),
        ¬ EmbedRaised ev) := by
  intro gw
  refine ⟨?_, ((servesL1Only_iff gw hiRequest lateOutage _ 0 ()
    lateOutage_unavailable).2.2 _ lateOutage_errors).1⟩
  refine (servesL1Only_iff gw hiRequest lateOutage _ 0 () lateOutage_unavailable).1
    (not_embedRaised_of_all ?_)
  unfold handleComplete
  rw [walk_evaluates]
  decide +kernel

/-- The second candidate answers, and the embedding call of the write-back takes the
answer back. -/
theorem embedding_error_discards_completion :
    let main : Program.Handler Op Reply Unit := fun s op => (failoverAnswer op, s)
    EmbeddingsUnavailable lateOutage hiRequest 0 ∧
      ¬ ServesL1Only lateOutage main
        (handleComplete ⟨false, fun _ => "digest"⟩ hiRequest) 0 () := by
  intro main
  refine ⟨lateOutage_unavailable, fun h => ?_⟩
  have hresult := congrArg (fun r => r.toOption.isSome) h.1
  revert hresult
  unfold handleComplete
  rw [walk_evaluates]
  decide +kernel

end InferenceGateway.Orchestrator
