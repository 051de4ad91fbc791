import InferenceGateway.Orchestrator.BooksAgree

/-!
# Hits in L1 replay the answer

An answer goes through the arguments of a put, the payload in L1 and the hit before it is a
result again. The content, the model and the tokens survive this. The finish reason is not
part of the payload, and both handlers leave it out of the result of a hit.
-/
namespace InferenceGateway.Orchestrator
open Library Library.Action Backends Cache Persistence Redis

/-- A put of the key, whether it has returned or raised. -/
def PutFor (key : String) (ev : Event) : Prop :=
  ∃ model promptHash content tokensIn tokensOut r,
    ev = ⟨.exactPut model promptHash content tokensIn tokensOut, r⟩ ∧ l1Key model promptHash = key

/-- The second caller has found something in L1 after the first one has put it there, and
nobody has put anything under the key in between. -/
def FindsEntryOf (h : List (Nat × Event)) (first second : Nat) (model promptHash : String) :
    Prop :=
  ∃ before put between hit after,
    h = before ++ (first, put) ::
      (between ++ (second, ⟨.exactGet model promptHash, .ok (some hit)⟩) :: after) ∧
    PutFor (l1Key model promptHash) put ∧
    ∀ e ∈ between, ¬ PutFor (l1Key model promptHash) e.2

/-- The same question, and neither request bypasses the cache. -/
structure Identical (req req' : ChatRequest) : Prop where
  model_eq : req'.model = req.model
  messages_eq : req'.messages = req.messages
  cached : req.bypassCache = false
  cached' : req'.bypassCache = false

/-- Two splits of a list are the same, or one element comes after the other. -/
theorem split_cases {α : Type} {before after before' after' : List α} {a a' : α}
    (h : before ++ a :: after = before' ++ a' :: after') :
    a' ∈ after ∨ a = a' ∨ a ∈ after' := by
  obtain ⟨l, -, hl⟩ | ⟨l, -, hl⟩ := List.append_eq_append_iff.mp h
  · cases l with
    | nil => exact .inr (.inl (List.cons.inj hl).1)
    | cons b l =>
      obtain ⟨-, rfl⟩ := List.cons.inj hl
      exact .inl (List.mem_append_right _ List.mem_cons_self)
  · cases l with
    | nil => exact .inr (.inl (List.cons.inj hl).1.symm)
    | cons b l =>
      obtain ⟨-, rfl⟩ := List.cons.inj hl
      exact .inr (.inr (List.mem_append_right _ List.mem_cons_self))

/-- What has been put last is known where a put has returned and none has followed. -/
theorem LastPut.eq_of_put {before between : List (Nat × Event)} {tag : Nat} {key : String}
    {model promptHash : String} {payload payload' : Payload}
    (h : LastPut (before ++ (tag, ⟨.exactPut model promptHash payload.content payload.tokensIn
      payload.tokensOut, .ok ()⟩) :: between) key payload')
    (hkey : l1Key model promptHash = key) (hquiet : ∀ e ∈ between, ¬ PutFor key e.2) :
    payload' = payload := by
  obtain ⟨before', tag', model', promptHash', r, after, heq, hkey', hafter⟩ := h
  obtain hlater | hsame | hearlier := split_cases heq
  · exact absurd ⟨_, _, _, _, _, r, rfl, hkey'⟩ (hquiet _ hlater)
  · obtain ⟨hop, -⟩ := Sigma.mk.inj (Prod.mk.inj hsame).2
    obtain ⟨-, -, hcontent, hin, hout⟩ := Op.exactPut.inj hop
    obtain ⟨content, tokensIn, tokensOut⟩ := payload
    exact Payload.mk.injEq .. ▸ ⟨hcontent.symm, hin.symm, hout.symm⟩
  · exact absurd hkey (hafter _ hearlier)

section Answers
variable {cache : TwoTierCache} {gw : RequestOrchestrator} {table : List Backend}
  {asks : Nat → Ask} {w : Pool Nat Running Op Reply Outcome} {tag : Nat} {req : ChatRequest}
  {result : CompletionResult} {shown : List BookEntry}

/-- An account puts its result into L1, and the put has returned. -/
theorem Account.cached (h : Account gw req shown result) {model hash content : String}
    {tokensIn tokensOut : Int} {returned : Bool}
    (hmem : .cached model hash content tokensIn tokensOut returned ∈ shown) :
    content = result.content ∧ tokensIn = result.tokensIn ∧ tokensOut = result.tokensOut ∧
      returned = true := by
  cases h with
  | hit reservation hit latency => simp at hmem
  | live h =>
    obtain ⟨backend, client, content', tokensIn', tokensOut', finishReason, calls, settled, -,
      hcalls, -, ⟨writes, latency, hwrites, rfl⟩, rfl, rfl⟩ := h
    have hcalled : .cached model hash content tokensIn tokensOut returned ∉ calls :=
      fun hcall => by simpa using hcalls _ hcall
    cases hwrites <;> simp [hcalled] at hmem <;> simp [hmem]

/-- The model of a live answer is the requested one if the registry offers backends under
their models. -/
theorem Account.offered (h : Account gw req shown result) (hlive : result.cacheTier = none) :
    ∃ candidates, .offered req.model candidates ∈ shown ∧
      ∃ pair ∈ candidates, result.model = pair.1.model := by
  cases h with
  | hit reservation hit latency => simp [hitResult] at hlive
  | @live reservation candidates shown _ h =>
    obtain ⟨backend, client, content, tokensIn, tokensOut, finishReason, calls, settled, hmem,
      -, -, -, rfl, rfl⟩ := h
    exact ⟨candidates, by simp, (backend, client), hmem, rfl⟩

theorem candidates_mem_of_offered {trace : List Event} {model : String}
    {pairs : List (Backend × Client)} (h : .offered model pairs ∈ books trace) :
    ⟨.candidates model, .ok pairs⟩ ∈ trace := by
  obtain ⟨ev, hev, hbook⟩ := List.mem_filterMap.mp h
  unfold book at hbook
  split at hbook <;> simp only [Option.some.injEq, BookEntry.offered.injEq, reduceCtorEq] at hbook
  obtain ⟨rfl, rfl⟩ := hbook
  exact hev

theorem model_of_live (h : Pool.Reachable (askedOf cache gw table asks) w)
    (hnodup : (w.tasks.map Prod.fst).Nodup) (hask : (asks tag).request? = some req)
    (hyields : Yields asks w tag result) (hlive : result.cacheTier = none) :
    result.model = req.model := by
  obtain ⟨shown, hshown, haccount⟩ := account_of_yields h hnodup hask hyields
  obtain ⟨candidates, hoffered, pair, hpair, hmodel⟩ := haccount.offered hlive
  have hmem : (tag, ⟨.candidates req.model, .ok candidates⟩) ∈ w.history := by
    refine Pool.mem_own.mp (candidates_mem_of_offered ?_)
    rw [hshown]
    exact (mem_shownTo (by simp)).mpr hoffered
  obtain ⟨before, after, hhistory⟩ := List.append_of_mem hmem
  have hsound := (cacheOrigins (reachable_hotReload h)).sound before _ after hhistory
  exact hmodel.trans (hsound pair hpair)

/-- A put of a caller who has been given a result has returned, and has put that result. -/
theorem put_of_yields (h : Pool.Reachable (askedOf cache gw table asks) w)
    (hnodup : (w.tasks.map Prod.fst).Nodup) (hyields : Yields asks w tag result)
    {put : Event} (hmem : (tag, put) ∈ w.history) {key : String} (hput : PutFor key put) :
    ∃ model promptHash, l1Key model promptHash = key ∧ put = ⟨.exactPut model promptHash
      result.content result.tokensIn result.tokensOut, .ok ()⟩ := by
  obtain ⟨model, promptHash, content, tokensIn, tokensOut, r, rfl, hkey⟩ := hput
  obtain ⟨req, hask⟩ := request_of_yields hyields
  obtain ⟨shown, hshown, haccount⟩ := account_of_yields h hnodup hask hyields
  have hcached : .cached model promptHash content tokensIn tokensOut r.isOk ∈
      books (Pool.own tag w.history) :=
    List.mem_filterMap.mpr ⟨_, Pool.mem_own.mpr hmem, rfl⟩
  obtain ⟨rfl, rfl, rfl, hr⟩ := haccount.cached ((mem_shownTo (by simp)).mp (hshown ▸ hcached))
  refine ⟨model, promptHash, hkey, ?_⟩
  cases r with
  | ok u => rfl
  | error e => simp [Except.isOk, Except.toBool] at hr

end Answers

/-- A hit in L1 replays the content, the model and the tokens of the answer that was put
there; the finish reason of a hit is never set. A request that has found the entry ends with
this result, unless one of its operations raises. -/
theorem hit_replays_answer (cache : TwoTierCache) (gw : RequestOrchestrator)
    (table : List Backend) (asks : Nat → Ask) {w : Pool Nat Running Op Reply Outcome}
    (h : Pool.Reachable (askedOf cache gw table asks) w) (hnodup : (w.tasks.map Prod.fst).Nodup)
    {first second : Nat} {req req' : ChatRequest} (hfirst : (asks first).request? = some req)
    (hsecond : (asks second).request? = some req') (hsame : Identical req req')
    {result : CompletionResult} (hyields : Yields asks w first result)
    (hlive : result.cacheTier = none)
    (hfinds : FindsEntryOf w.history first second req.model
      (promptHash gw.sha256 req.model req.messages)) :
    (∀ result', Yields asks w second result' → result' =
      { result with finishReason := none, cacheTier := some .l1, backendName := none }) ∧
    ∀ outcome, (second, .pure outcome) ∈ w.tasks →
      (∃ result', Yields asks w second result') ∨ HasRaised (Pool.own second w.history) := by
  obtain ⟨before, put, between, hit, after, hhistory, hput, hquiet⟩ := hfinds
  have hput' : (first, put) ∈ w.history := by
    rw [hhistory]
    exact List.mem_append_right _ List.mem_cons_self
  obtain ⟨model, promptHash', hkey, rfl⟩ := put_of_yields h hnodup hyields hput' hput
  rw [← List.cons_append, ← List.append_assoc] at hhistory
  obtain ⟨htier, hlast⟩ := (cacheOrigins (reachable_hotReload h)).sound _ _ after hhistory
  have hpayload : (⟨hit.content, hit.tokensIn, hit.tokensOut⟩ : Payload) =
      ⟨result.content, result.tokensIn, result.tokensOut⟩ := hlast.eq_of_put hkey hquiet
  obtain ⟨hcontent, hin, hout⟩ := Payload.mk.inj hpayload
  have hmodel := model_of_live h hnodup hfirst hyields hlive
  have hfound : .found hit ∈ books (Pool.own second w.history) := by
    have hget : (second, ⟨.exactGet req.model (promptHash gw.sha256 req.model req.messages),
        .ok (some hit)⟩) ∈ w.history := by
      rw [hhistory]
      exact List.mem_append_right _ List.mem_cons_self
    exact List.mem_filterMap.mpr ⟨_, Pool.mem_own.mpr hget, rfl⟩
  refine ⟨fun result' hyields' => ?_, fun outcome htask => ?_⟩
  · rw [result_of_found h hnodup hsecond hyields' hfound]
    unfold hitResult
    rw [hsame.model_eq, hmodel, hcontent, hin, hout, htier]
  · exact yields_of_found h hnodup hsecond htask hfound

/-! ## A stream that stopped at a length limit -/

/-- A put, or a lookup that finds something, with its model and its digest. -/
def l1Use : Event → Option (Bool × String × String)
  | ⟨.exactPut model promptHash _ _ _, _⟩ => some (true, model, promptHash)
  | ⟨.exactGet model promptHash, .ok (some _)⟩ => some (false, model, promptHash)
  | _ => none

/-- One put and one lookup that finds something. -/
theorem findsEntryOf_of_uses {h : List (Nat × Event)} {first second : Nat}
    {model promptHash : String}
    (huses : h.filterMap (fun e => (l1Use e.2).map (Prod.mk e.1)) =
      [(first, true, model, promptHash), (second, false, model, promptHash)]) :
    FindsEntryOf h first second model promptHash := by
  obtain ⟨before, put, rest, rfl, -, hput, hrest⟩ := List.filterMap_eq_cons_iff.mp huses
  obtain ⟨between, get, after, rfl, hnone, hget, -⟩ := List.filterMap_eq_cons_iff.mp hrest
  obtain ⟨tag, put⟩ := put
  obtain ⟨tag', get⟩ := get
  simp only [Option.map_eq_some_iff, Prod.mk.injEq] at hput hget hnone
  obtain ⟨_, huse, rfl, rfl⟩ := hput
  obtain ⟨_, huse', rfl, rfl⟩ := hget
  have hfound : ∃ hit, get = ⟨.exactGet model promptHash, .ok (some hit)⟩ := by
    unfold l1Use at huse'
    split at huse' <;> simp only [Option.some.injEq, Prod.mk.injEq, reduceCtorEq, false_and,
      true_and] at huse'
    obtain ⟨rfl, rfl⟩ := huse'
    exact ⟨_, rfl⟩
  have hputFor : PutFor (l1Key model promptHash) put := by
    unfold l1Use at huse
    split at huse <;> simp only [Option.some.injEq, Prod.mk.injEq, reduceCtorEq, false_and,
      true_and] at huse
    obtain ⟨rfl, rfl⟩ := huse
    exact ⟨_, _, _, _, _, _, rfl, rfl⟩
  obtain ⟨hit, rfl⟩ := hfound
  refine ⟨before, put, between, hit, after, rfl, hputFor, fun e he hput => ?_⟩
  obtain ⟨_, _, _, _, _, _, heq, -⟩ := hput
  have hquiet := hnone e he
  rw [heq] at hquiet
  simp [l1Use] at hquiet

theorem answeredTwice_finds : FindsEntryOf answeredTwice.history 1 2 hiRequest.model
    (promptHash zeroDigest.sha256 hiRequest.model hiRequest.messages) := by
  refine findsEntryOf_of_uses ?_
  unfold answeredTwice twice Ask.program handleStream
  rw [walk_evaluates]
  decide +kernel

theorem hit_replays_answer_twice :
    (∀ result', Yields twice answeredTwice 2 result' → result' =
      { firstAnswer with finishReason := none, cacheTier := some .l1, backendName := none }) ∧
    ∀ outcome, (2, .pure outcome) ∈ answeredTwice.tasks →
      (∃ result', Yields twice answeredTwice 2 result') ∨
        HasRaised (Pool.own 2 answeredTwice.history) :=
  hit_replays_answer sampleCache zeroDigest flaky twice answeredTwice_reachable
    answeredTwice_tags rfl rfl ⟨rfl, rfl, rfl, rfl⟩ answeredTwice_yields.1 rfl answeredTwice_finds

/-- The second request finds the entry of the first one, and loses its finish reason. -/
theorem finish_reason_lost : ∃ w,
    Pool.Reachable (askedOf sampleCache zeroDigest flaky twice) w ∧
    FindsEntryOf w.history 1 2 hiRequest.model
      (promptHash zeroDigest.sha256 hiRequest.model hiRequest.messages) ∧
    ∃ first second, Yields twice w 1 first ∧ first.cacheTier = none ∧ Yields twice w 2 second ∧
      second.finishReason ≠ first.finishReason :=
  ⟨answeredTwice, answeredTwice_reachable, answeredTwice_finds, firstAnswer, secondAnswer,
    answeredTwice_yields.1, rfl, answeredTwice_yields.2, by decide⟩

end InferenceGateway.Orchestrator
