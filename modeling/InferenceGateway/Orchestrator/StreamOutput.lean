import InferenceGateway.Orchestrator.Traces

/-!
# What a stream yields

To a consumer that reads on, `handle_stream` yields text and, if it returns, one result after
all text, whose content is the text joined. If it raises there is no result.
-/
namespace InferenceGateway.Orchestrator
open Library Library.Action

variable {α β : Type}

/-- The events that are yielded. -/
def output (trace : List Event) : List Yielded := trace.filterMap fun
  | ⟨.emit event, _⟩ => some event
  | _ => none

/-- The consumer takes what is yielded and asks for more. -/
def ReadsOn : (op : Op) → Reply op → Prop
  | .emit _, r => r = .ok ()
  | _, _ => True

abbrev readsOn : Contract := .expecting ReadsOn

/-- Text, and after it the result of a stream that returns. -/
def WholeOutput (trace : List Event) (r : Except Raised α) : Prop :=
  ∃ texts : List String, match r with
    | .ok _ => ∃ result, output trace = texts.map .text ++ [.result result] ∧
        String.join texts = result.content
    | .error _ => output trace = texts.map .text

def Op.yields : Op → Bool
  | .emit _ => true
  | _ => false

/-- A part that yields nothing. -/
def Mute (x : Action α) : Prop := wp readsOn x fun trace _ => output trace = []

section Parts
variable {gw : RequestOrchestrator} {req : ChatRequest} {trace trace' : List Event}
  {r : Except Raised α} {x : Action α} {f : α → Action β}

@[simp] theorem output_append : output (trace ++ trace') = output trace ++ output trace' :=
  List.filterMap_append

theorem output_eq_nil (h : ∀ ev ∈ trace, ev.1.yields = false) : output trace = [] := by
  refine List.filterMap_eq_nil_iff.mpr fun ev hev => ?_
  have hop := h ev hev
  split
  · exact nomatch hop
  · rfl

theorem WholeOutput.after (h : output trace = []) (h' : WholeOutput trace' r) :
    WholeOutput (trace ++ trace') r := by
  unfold WholeOutput at h' ⊢
  rwa [output_append, h, List.nil_append]

theorem admits_readsOn (gw : RequestOrchestrator) (req : ChatRequest) : Admits readsOn gw req :=
  .of_allowed fun _ => trivial

theorem Mute.of_straight {S : Op → Prop} (h : Straight readsOn S x)
    (hS : ∀ op, S op → op.yields = false) : Mute x :=
  wp_mono h fun _ _ hr => output_eq_nil fun ev hev => hS _ (hr.1 ev hev)

/-- A part that yields nothing, and the rest. -/
theorem Mute.wp_bind (hx : Mute x) {Q : List Event → Except Raised β → Prop}
    (hraises : ∀ trace e, output trace = [] → Q trace (.error e))
    (hf : ∀ a trace, output trace = [] → wp readsOn (f a) fun trace' r => Q (trace ++ trace') r) :
    wp readsOn (x >>= f) Q := by
  refine (Library.Action.wp_bind _).mpr (wp_mono hx fun trace r hr => ?_)
  cases r with
  | error e => exact hraises trace e hr
  | ok a => exact hf a trace hr

theorem mute_incr (metric : String) (labels : List (String × String)) :
    Mute (incr gw metric labels) := by
  unfold incr
  split
  · exact (wp_call _ _).mpr ⟨trivial, fun _ _ => rfl⟩
  · exact rfl

theorem mute_settle (start : Time) (reservation : Resilience.RateLimit.ReservationId)
    (backend : Backend) (content : String) (tokensIn tokensOut : Int)
    (finishReason : Option String) :
    Mute (settle gw req start reservation backend content tokensIn tokensOut finishReason) := by
  refine .of_straight (straight_settle (S := fun op => op.yields = false) (admits_readsOn gw req)
    (fun op hop => ?_) (fun _ => rfl) start reservation content tokensIn tokensOut finishReason)
    fun _ => id
  cases op <;> first | rfl | exact hop.elim

theorem mute_chargeHit (start : Time) (reservation : Resilience.RateLimit.ReservationId)
    (hit : CacheHit) : Mute (chargeHit gw req start reservation hit) := by
  refine .of_straight (straight_chargeHit (S := fun op => op.yields = false)
    (admits_readsOn gw req) (fun op hop => ?_) (fun _ => rfl) (fun _ => rfl) start reservation hit)
    fun _ => id
  cases op <;> first | rfl | exact hop.elim

theorem mute_logUnavailable (start : Time) : Mute (logUnavailable req start) := by
  refine .of_straight (straight_logUnavailable (S := fun op => op.yields = false)
    (admits_readsOn ⟨true, fun _ => ""⟩ req) (fun op hop => ?_) (fun _ => rfl) start) fun _ => id
  cases op <;> first | rfl | exact hop.elim

/-- The texts that reading a stream passes on are those that it accumulates. -/
theorem output_consume (client : Client) (events : List StreamEvent) (s : Consumed) :
    wp readsOn (consume client events s) fun trace r => ∃ s' ended texts, r = .ok (s', ended) ∧
      output trace = texts.map .text ∧ s'.accumulated = s.accumulated ++ texts ∧
      s'.anyYielded = (s.anyYielded || !texts.isEmpty) := by
  induction events generalizing s with
  | nil =>
    refine wp_attempt_bind trivial fun r _ => ?_
    exact ⟨s, r, [], rfl, rfl, by simp, by simp⟩
  | cons event events ih =>
    refine wp_attempt_bind trivial fun r _ => ?_
    cases r with
    | error e => exact ⟨s, .error e, [], rfl, rfl, by simp, by simp⟩
    | ok u =>
      cases event with
      | usage usage => exact ih { s with usage := some usage }
      | text chunk =>
        refine wp_attempt_bind trivial fun r hr => ?_
        obtain rfl : r = .ok () := hr
        refine wp_mono (ih _) fun trace r hr => ?_
        obtain ⟨s', ended, texts, rfl, hshown, haccumulated, hyielded⟩ := hr
        refine ⟨s', ended, chunk :: texts, rfl, ?_, ?_, by simpa using hyielded⟩
        · exact congrArg (.text chunk :: ·) hshown
        · rw [haccumulated, List.append_assoc]
          rfl

theorem output_streamFrom (backend : Backend) (client : Client) :
    wp readsOn (streamFrom req backend client) fun trace r => ∃ s ended,
      r = .ok (s, ended) ∧ output trace = s.accumulated.map .text ∧
      s.anyYielded = !s.accumulated.isEmpty := by
  unfold streamFrom
  refine wp_attempt_bind trivial fun r _ => ?_
  cases r with
  | error e => exact ⟨{}, .error e, rfl, rfl, rfl⟩
  | ok u =>
    refine (wp_bind _).mpr (wp_mono (Q := fun trace r => ∃ s ended, r = .ok (s, ended) ∧
      output trace = s.accumulated.map .text ∧ s.anyYielded = !s.accumulated.isEmpty) ?_
      fun trace r hr => ?_)
    · refine wp_attempt_bind trivial fun r _ => ?_
      cases r with
      | error e => exact ⟨{}, .error e, rfl, rfl, rfl⟩
      | ok events =>
        refine wp_mono (output_consume client events {}) fun trace r hr => ?_
        obtain ⟨s, ended, texts, rfl, hshown, haccumulated, hyielded⟩ := hr
        obtain rfl : s.accumulated = texts := by simpa using haccumulated
        exact ⟨s, ended, rfl, hshown, by simpa using hyielded⟩
    · obtain ⟨s, ended, rfl, hshown, hyielded⟩ := hr
      refine wp_attempt_bind trivial fun left _ => ?_
      have houtput : output (⟨.acquire backend.id, .ok u⟩ ::
          (trace ++ [⟨.release backend.id, left⟩])) = s.accumulated.map .text := by
        rw [← hshown]
        exact output_append.trans (List.append_nil (output trace))
      cases left with
      | error e => exact ⟨s, .error e, rfl, houtput, hyielded⟩
      | ok v => exact ⟨s, ended, rfl, houtput, hyielded⟩

/-- What an admitted candidate yields: its texts and the result, its texts before it breaks,
or nothing, so that the walk goes on. -/
def PassOutput (trace : List Event) : Except Raised (Pass α) → Prop
  | .ok (.next _) => output trace = []
  | .ok (.done a) => WholeOutput trace (.ok a : Except Raised α)
  | .error e => WholeOutput trace (.error e : Except Raised α)

/-- The result is yielded after the texts of its stream. -/
theorem WholeOutput.of_result {texts : List String} (h : output trace = texts.map .text)
    (result : CompletionResult) (hcontent : String.join texts = result.content) (a : α) :
    WholeOutput (trace ++ [⟨.emit (.result result), .ok ()⟩]) (.ok a : Except Raised α) := by
  refine ⟨texts, result, ?_, hcontent⟩
  rw [output_append, h]
  rfl

theorem output_streamWith (start : Time) (reservation : Resilience.RateLimit.ReservationId)
    (backend : Backend) (client : Client) :
    wp readsOn (streamWith gw req start reservation backend client) PassOutput := by
  unfold streamWith
  refine (wp_bind _).mpr (wp_mono (output_streamFrom backend client) ?_)
  rintro call _ ⟨s, ended, rfl, hshown, hyielded⟩
  have hbroken : ∀ {after : List Event} (e : Raised), output after = [] →
      PassOutput (call ++ after) (.error e : Except Raised (Pass Unit)) := by
    intro after e hafter
    refine ⟨s.accumulated, ?_⟩
    rw [output_append, hafter, List.append_nil, hshown]
  cases ended with
  | error e =>
    dsimp only
    split
    · refine wp_call_bind trivial (fun e' _ => hbroken e' rfl) fun u _ => ?_
      split
      · exact hbroken (.allBackendsUnavailable (some e)) rfl
      · rename_i hany
        have hnone : s.accumulated = [] := by simpa [hyielded] using hany
        have houtput : output call = [] := by rw [hshown, hnone, List.map_nil]
        have hrecorded : output (call ++ [⟨.record backend.id false, .ok u⟩]) = [] := by
          rw [output_append, houtput]
          rfl
        exact hrecorded
    · exact hbroken e rfl
  | ok u =>
    refine (mute_settle start reservation backend _ _ _ _).wp_bind (fun _ => hbroken)
      fun latency settled hsettled => ?_
    refine (mute_incr _ _).wp_bind (fun counted e hcounted => hbroken e ?_)
      fun _ counted hcounted => ?_
    · rw [output_append, hsettled, hcounted, List.append_nil]
    have hbooks : output (call ++ (settled ++ counted)) = s.accumulated.map .text := by
      rw [output_append, output_append, hsettled, hcounted, hshown, List.append_nil,
        List.append_nil]
    refine wp_call_bind trivial (fun e he => nomatch he) fun v _ => ?_
    have hresult := WholeOutput.of_result hbooks ⟨String.join s.accumulated, backend.model,
      (s.usage.map Usage.tokensIn).getD 0, (s.usage.map Usage.tokensOut).getD 0,
      (s.usage.map Usage.finishReason).getD (some "stop"), none, some backend.name⟩ rfl ()
    refine (wp_pure _ _).mpr ?_
    simpa [PassOutput] using hresult

theorem output_walk {stopped : Raised} {body : Backend → Client → Action (Pass Unit)}
    {exhausted : Option Raised → Action Unit}
    (hbody : ∀ backend client, wp readsOn (body backend client) PassOutput)
    (hexhausted : ∀ err, wp readsOn (exhausted err) WholeOutput)
    (remaining : List (Backend × Client)) (err : Option Raised) :
    wp readsOn (walk req stopped body exhausted remaining err) WholeOutput := by
  suffices h : WalkRule readsOn req stopped body exhausted (fun _ _ => True)
      (fun _ _ => WholeOutput) from h.wp_walk trivial
  have hnothing : ∀ {trace : List Event} {e : Raised}, output trace = [] →
      WholeOutput trace (.error e : Except Raised Unit) := fun h => ⟨[], h⟩
  refine ⟨fun _ _ => trivial, fun _ _ _ => hnothing rfl, fun _ _ _ _ => hnothing rfl,
    fun _ _ => trivial, fun _ _ _ => hnothing rfl, ?_, ?_, fun _ => hexhausted _⟩
  · intro rem err chosen backend client _ _ _ _
    have hasked : output [⟨.select (rem.map Prod.fst) (features req), .ok chosen⟩,
        ⟨.allow backend.id, .ok false⟩] = [] := rfl
    exact ⟨trivial, fun _ _ hrest => .after hasked hrest⟩
  · intro rem err chosen backend client _ _ _ _
    have hasked : output [⟨.select (rem.map Prod.fst) (features req), .ok chosen⟩,
        ⟨.allow backend.id, .ok true⟩] = [] := rfl
    refine wp_mono (hbody backend client) fun trace r hr => ?_
    cases r with
    | error e => exact .after hasked hr
    | ok pass =>
      cases pass with
      | done a => exact .after hasked hr
      | next err' =>
        refine ⟨trivial, fun trace' r' hrest => ?_⟩
        have hpass := WholeOutput.after hasked (WholeOutput.after hr hrest)
        exact hpass

/-- To a consumer that reads on, every run of `handle_stream` yields a whole output. -/
theorem output_handleStream (gw : RequestOrchestrator) (req : ChatRequest) :
    wp readsOn (handleStream gw req) WholeOutput := by
  have hlead : ∀ (start : Reply .perfCounter) {lead : List Event},
      (∀ ev ∈ lead, LeadOp req ev.1) → output (⟨.perfCounter, start⟩ :: lead) = [] := by
    intro start lead h
    refine output_eq_nil (List.forall_mem_cons.mpr ⟨rfl, fun ev hev => ?_⟩)
    have hop := h ev hev
    obtain ⟨op, r⟩ := ev
    cases op <;> first | rfl | exact hop.elim
  rw [handleStream_eq]
  refine wp_pipeline (admits_readsOn gw req) (fun start lead r h => ?_)
    (fun start reservation hit lead h => ?_) fun start reservation remaining lead h => ?_
  · exact ⟨[], hlead start h⟩
  · have hcharged : wp readsOn (streamHit gw req start reservation hit) WholeOutput := by
      refine (mute_chargeHit start reservation hit).wp_bind
        (fun trace e htrace => ⟨[], htrace⟩) fun _ charged houtput => ?_
      refine wp_call_bind trivial (fun e he => nomatch he) fun u _ => ?_
      refine (wp_call _ _).mpr ⟨trivial, fun r hr => ?_⟩
      obtain rfl : r = .ok () := hr
      have htext : output (charged ++ [⟨.emit (.text hit.content), .ok ()⟩]) =
          [hit.content].map .text := by
        rw [output_append, houtput]
        rfl
      simpa using WholeOutput.of_result htext (hitResult req hit) rfl ()
    exact wp_mono hcharged fun trace r hr => .after (hlead (.ok start) h) hr
  · refine wp_mono (output_walk (output_streamWith start reservation) (fun err => ?_) remaining
      none) fun trace r hr => .after (hlead (.ok start) h) hr
    refine (mute_logUnavailable start).wp_bind
      (fun trace e htrace => ⟨[], htrace⟩) fun _ trace htrace => ?_
    exact ⟨[], by rw [output_append, htrace]; rfl⟩

end Parts

end InferenceGateway.Orchestrator
