import InferenceGateway.Orchestrator.Asks
import InferenceGateway.Orchestrator.CacheOrigins
import InferenceGateway.Resilience.RateLimitReconcile

/-!
# The books agree on served requests

The result, the log row, the limiter and the cache get the tokens of an answer at separate
points of two handlers. In every pool they get the same ones, and a hit is charged what the
answer that it repeats was charged.
-/
namespace InferenceGateway.Orchestrator
open Library Library.Action Backends Cache Persistence Redis Resilience.RateLimit

/-! ## What the books say -/

namespace BookEntry

def reservation? : BookEntry → Option ReservationId
  | reserved reservation => some reservation
  | _ => none

def charge? : BookEntry → Option (Uuid × ReservationId × Int)
  | reconciled apiKeyId reservation actualTokens => some (apiKeyId, reservation, actualTokens)
  | _ => none

def row? : BookEntry → Option RequestLog
  | logged row => some row
  | _ => none

/-- What is written to either tier. -/
def write? : BookEntry → Option Payload
  | cached _ _ content tokensIn tokensOut _ => some ⟨content, tokensIn, tokensOut⟩
  | stored entry _ => some ⟨entry.response, entry.tokensIn, entry.tokensOut⟩
  | _ => none

end BookEntry

/-- Whatever the limiter was asked before and whatever the clocks say: if it still stores the
reservation when it is reconciled with this cost, it stores this cost for it afterwards. -/
def Stores (apiKey : ApiKey) (reservation : ReservationId) (cost : Int) : Prop :=
  ∀ past served clock, Holds reservation (((limiter apiKey).state past).touch served) →
    Resilience.RateLimit.Recorded reservation cost clock
      ((limiter apiKey).state (past ++ [⟨served, clock, .reconcile reservation cost⟩]))

/-- The books agree with the result: one reservation and one charge for it, one row, which
has a backend if one was called and a tier if one had the answer, and writes to the cache
unless it was bypassed or had the answer. -/
structure BooksAgree (req : ChatRequest) (shown : List BookEntry) (result : CompletionResult) :
    Prop where
  charged : ∃ reservation, shown.filterMap BookEntry.reservation? = [reservation] ∧
    shown.filterMap BookEntry.charge? =
      [(req.apiKey.id, reservation, result.tokensIn + result.tokensOut)] ∧
    Stores req.apiKey reservation (result.tokensIn + result.tokensOut)
  logged : ∃ row, shown.filterMap BookEntry.row? = [row] ∧ row.status = 200 ∧
    row.tokensIn = result.tokensIn ∧ row.tokensOut = result.tokensOut ∧
    (row.backendId.isSome ↔ .called ∈ shown) ∧
    (row.cacheTier.isSome ↔ ∃ hit, .found hit ∈ shown)
  answered : .called ∈ shown ↔ ¬ ∃ hit, .found hit ∈ shown
  written : ∀ write ∈ shown.filterMap BookEntry.write?,
    write = ⟨result.content, result.tokensIn, result.tokensOut⟩
  kept : .called ∈ shown → req.bypassCache = false → shown.filterMap BookEntry.write? ≠ []

/-- What a column of type `INTEGER` holds. -/
def FitsInteger (n : Int) : Prop := -2 ^ 31 ≤ n ∧ n < 2 ^ 31

/-- The database refuses a row whose tokens do not fit their columns. -/
def IntegerColumns (h : List (Nat × Event)) : Prop :=
  ∀ tag row u, (tag, ⟨.insertLog row, .ok u⟩) ∈ h →
    FitsInteger row.tokensIn ∧ FitsInteger row.tokensOut

/-! ## Accounts agree -/

theorem stores_of_fits {apiKey : ApiKey} {reservation : ReservationId} {m n : Int}
    (hm : FitsInteger m) (hn : FitsInteger n) : Stores apiKey reservation (m + n) := by
  intro past served clock hholds
  rw [Service.state_concat]
  have hsmall : (m + n).natAbs < 10 ^ 14 := by
    unfold FitsInteger at hm hn
    omega
  refine (recorded_reconcile (limiter_named apiKey past) apiKey (m + n)).mpr ⟨?_, hsmall⟩
  obtain ⟨hnone, -⟩ | ⟨found, hmem, hpre, heq⟩ := reconcile_cases ((limiter apiKey).state past)
    served clock reservation (m + n)
  · obtain ⟨found, hmem, hpre⟩ := hholds
    exact absurd hpre (hnone found hmem)
  · change Holds reservation (reconcile _ served clock reservation (m + n)).2
    rw [heq]
    exact holds_zadd_self _ _

/-- What calls do not show is shown by the entries around them. -/
theorem filterMap_calls {β : Type} {calls : List BookEntry} (hcalls : Calls calls)
    (f : BookEntry → Option β) (hf : f .called = none) (before after : List BookEntry) :
    (before ++ (calls ++ after)).filterMap f = before.filterMap f ++ after.filterMap f := by
  have hnone : calls.filterMap f = [] :=
    List.filterMap_eq_nil_iff.mpr fun entry hentry => by rw [hcalls entry hentry, hf]
  rw [List.filterMap_append, List.filterMap_append, hnone, List.nil_append]

section Accounts
variable {gw : RequestOrchestrator} {req : ChatRequest} {shown : List BookEntry}
  {result : CompletionResult}

/-- The row of an account is that of its result. -/
theorem Account.row (h : Account gw req shown result) : ∃ row, .logged row ∈ shown ∧
    row.tokensIn = result.tokensIn ∧ row.tokensOut = result.tokensOut := by
  cases h with
  | hit reservation hit latency => exact ⟨hitRow req latency hit, by simp, rfl, rfl⟩
  | live h =>
    obtain ⟨backend, client, content, tokensIn, tokensOut, finishReason, calls, settled, -,
      -, -, ⟨writes, latency, -, rfl⟩, rfl, rfl⟩ := h
    exact ⟨liveRow req latency backend tokensIn tokensOut finishReason, by simp, rfl, rfl⟩

/-- An account writes its result to the cache, if it writes at all. -/
theorem Account.written (h : Account gw req shown result) :
    ∀ write ∈ shown.filterMap BookEntry.write?,
      write = ⟨result.content, result.tokensIn, result.tokensOut⟩ := by
  intro write hwrite
  cases h with
  | hit reservation hit latency => simp [BookEntry.write?] at hwrite
  | @live reservation candidates shown _ h =>
    obtain ⟨backend, client, content, tokensIn, tokensOut, finishReason, calls, settled, -,
      hcalls, -, ⟨writes, latency, hwrites, rfl⟩, rfl, rfl⟩ := h
    change write ∈ ([BookEntry.reserved reservation, .offered req.model candidates] ++
      (calls ++ (writes ++ _))).filterMap _ at hwrite
    rw [filterMap_calls hcalls _ rfl] at hwrite
    cases hwrites with
    | bypassed => simp [BookEntry.write?] at hwrite
    | l1 => simpa [BookEntry.write?] using hwrite
    | both => simpa [BookEntry.write?] using hwrite

theorem Account.agree (h : Account gw req shown result) (hin : FitsInteger result.tokensIn)
    (hout : FitsInteger result.tokensOut) : BooksAgree req shown result := by
  have hwritten := h.written
  cases h with
  | hit reservation hit latency =>
    exact {
      charged := ⟨reservation, rfl, rfl, stores_of_fits hin hout⟩
      logged := ⟨hitRow req latency hit, rfl, rfl, rfl, rfl, by simp [hitRow], by simp [hitRow]⟩
      answered := by simp
      written := hwritten
      kept := by simp }
  | @live reservation candidates shown _ h =>
    obtain ⟨backend, client, content, tokensIn, tokensOut, finishReason, calls, settled, -,
      hcalls, hne, ⟨writes, latency, hwrites, rfl⟩, rfl, rfl⟩ := h
    have hcalled : .called ∈ calls := by
      obtain ⟨call, hcall⟩ := List.exists_mem_of_ne_nil _ hne
      exact hcalls call hcall ▸ hcall
    have hunfound : ∀ hit, .found hit ∉ calls := fun hit hmem => by simpa using hcalls _ hmem
    change BooksAgree req ([.reserved reservation, .offered req.model candidates] ++
      (calls ++ (writes ++ _))) _
    have hparts := fun {β : Type} (f : BookEntry → Option β) (hf : f .called = none) =>
      filterMap_calls hcalls f hf
    refine {
      charged := ⟨reservation, (hparts _ rfl _ _).trans ?_, (hparts _ rfl _ _).trans ?_,
        stores_of_fits hin hout⟩
      logged := ⟨liveRow req latency backend tokensIn tokensOut finishReason,
        (hparts _ rfl _ _).trans ?_, rfl, rfl, rfl, iff_of_true rfl (by simp [hcalled]),
        iff_of_false (by simp [liveRow]) ?_⟩
      answered := iff_of_true (by simp [hcalled]) ?_
      written := hwritten
      kept := fun _ hbypass => ?_ }
    · cases hwrites <;> rfl
    · cases hwrites <;> rfl
    · cases hwrites <;> rfl
    · cases hwrites <;> simp [hunfound]
    · cases hwrites <;> simp [hunfound]
    · rw [hparts _ rfl]
      cases hwrites with
      | bypassed hbypassed => simp [hbypass] at hbypassed
      | l1 => simp [BookEntry.write?]
      | both => simp [BookEntry.write?]

/-- Yielding the result changes nothing. -/
theorem BooksAgree.yielded (h : BooksAgree req shown result) :
    BooksAgree req (shown ++ [.yielded result]) result := by
  have hsame : ∀ {β : Type} (f : BookEntry → Option β), f (BookEntry.yielded result) = none →
      (shown ++ [BookEntry.yielded result]).filterMap f = shown.filterMap f := by
    intro β f hf
    rw [List.filterMap_append, List.filterMap_cons_none hf, List.filterMap_nil, List.append_nil]
  constructor
  · rw [hsame _ rfl, hsame _ rfl]
    exact h.charged
  · simpa [hsame BookEntry.row? rfl] using h.logged
  · simpa using h.answered
  · rw [hsame _ rfl]
    exact h.written
  · rw [hsame _ rfl]
    simpa using h.kept

end Accounts

/-! ## In every pool -/

theorem logged_mem_books {trace : List Event} {row : RequestLog}
    (h : .logged row ∈ books trace) : ∃ u, ⟨.insertLog row, .ok u⟩ ∈ trace := by
  obtain ⟨ev, hev, hbook⟩ := List.mem_filterMap.mp h
  unfold book at hbook
  split at hbook <;> simp only [Option.some.injEq, BookEntry.logged.injEq, reduceCtorEq] at hbook
  subst hbook
  exact ⟨_, hev⟩

/-- Either tier has answered. -/
theorem eq_lookup_of_book {ev : Event} {hit : CacheHit} (h : book ev = some (.found hit)) :
    (∃ model promptHash, ev = ⟨.exactGet model promptHash, .ok (some hit)⟩) ∨
      ∃ model embedding entry, ev = ⟨.findSimilar model embedding, .ok (some entry)⟩ ∧
        hit = ⟨entry.response, entry.tokensIn, entry.tokensOut, .l2⟩ := by
  unfold book at h
  split at h <;> simp only [Option.some.injEq, BookEntry.found.injEq, reduceCtorEq] at h
  · subst h
    exact .inl ⟨_, _, rfl⟩
  · exact .inr ⟨_, _, _, rfl, h.symm⟩

/-- What an event writes to either tier. -/
def wrote (ev : Event) : Option Payload := (book ev).bind BookEntry.write?

/-- What has been found was written before. -/
theorem Sound.exists_wrote {past : List (Nat × Event)} {ev : Event} (h : Sound past ev)
    {hit : CacheHit} (hfound : book ev = some (.found hit)) :
    ∃ writer ev', (writer, ev') ∈ past ∧
      wrote ev' = some ⟨hit.content, hit.tokensIn, hit.tokensOut⟩ := by
  obtain ⟨model, promptHash, rfl⟩ | ⟨model, embedding, entry, rfl, rfl⟩ := eq_lookup_of_book hfound
  · obtain ⟨-, before, tag, _, _, r, after, rfl, -, -⟩ := h
    exact ⟨tag, _, List.mem_append_right _ List.mem_cons_self, rfl⟩
  · obtain ⟨tag, r, hmem⟩ := h
    exact ⟨tag, _, hmem, rfl⟩

/-- Before these events a caller has written this answer to the cache. Whatever result that
caller has been given, it has this content and these tokens. -/
def Repeats (asks : Nat → Ask) (w : Pool Nat Running Op Reply Outcome)
    (before : List (Nat × Event)) (result : CompletionResult) : Prop :=
  ∃ writer ev, (writer, ev) ∈ before ∧
    wrote ev = some ⟨result.content, result.tokensIn, result.tokensOut⟩ ∧
    ∀ result', Yields asks w writer result' → result'.content = result.content ∧
      result'.tokensIn = result.tokensIn ∧ result'.tokensOut = result.tokensOut

section Pools
variable {cache : TwoTierCache} {gw : RequestOrchestrator} {table : List Backend}
  {asks : Nat → Ask} {w : Pool Nat Running Op Reply Outcome} {tag : Nat} {req : ChatRequest}
  {result : CompletionResult}

theorem request_of_yields (h : Yields asks w tag result) :
    ∃ req, (asks tag).request? = some req := by
  unfold Yields at h
  split at h
  · rename_i req hask
    exact ⟨req, by rw [hask, Ask.request?]⟩
  · rename_i req hask
    exact ⟨req, by rw [hask, Ask.request?]⟩
  · exact h.elim

/-- What an event of the caller writes to the cache is the result. -/
theorem written_of_yields (h : Pool.Reachable (askedOf cache gw table asks) w)
    (hnodup : (w.tasks.map Prod.fst).Nodup) (hyields : Yields asks w tag result) {ev : Event}
    (hmem : (tag, ev) ∈ w.history) {write : Payload} (hwrote : wrote ev = some write) :
    write = ⟨result.content, result.tokensIn, result.tokensOut⟩ := by
  obtain ⟨req, hask⟩ := request_of_yields hyields
  obtain ⟨shown, hshown, haccount⟩ := account_of_yields h hnodup hask hyields
  obtain ⟨entry, hentry, hwrite⟩ := Option.bind_eq_some_iff.mp hwrote
  have hbooks : entry ∈ books (Pool.own tag w.history) :=
    List.mem_filterMap.mpr ⟨ev, Pool.mem_own.mpr hmem, hentry⟩
  refine haccount.written write (List.mem_filterMap.mpr ⟨entry, ?_, hwrite⟩)
  refine (mem_shownTo fun result' heq => ?_).mp (hshown ▸ hbooks)
  rw [heq] at hwrite
  simp [BookEntry.write?] at hwrite

/-- The books of a caller agree with the result. -/
theorem agree_of_yields (h : Pool.Reachable (askedOf cache gw table asks) w)
    (hnodup : (w.tasks.map Prod.fst).Nodup) (hcolumns : IntegerColumns w.history)
    (hask : (asks tag).request? = some req) (hyields : Yields asks w tag result) :
    BooksAgree req (books (Pool.own tag w.history)) result := by
  obtain ⟨shown, hshown, haccount⟩ := account_of_yields h hnodup hask hyields
  obtain ⟨row, hrow, hin, hout⟩ := haccount.row
  have hlogged : .logged row ∈ books (Pool.own tag w.history) :=
    hshown ▸ (mem_shownTo (by simp)).mpr hrow
  obtain ⟨u, hmem⟩ := logged_mem_books hlogged
  obtain ⟨hfitsIn, hfitsOut⟩ := hcolumns tag row u (Pool.mem_own.mp hmem)
  have hagree := haccount.agree (hin ▸ hfitsIn) (hout ▸ hfitsOut)
  rw [hshown]
  unfold shownTo
  split
  · exact hagree.yielded
  · exact hagree

/-- The result of a hit is what was found. -/
theorem Account.of_found {shown : List BookEntry} (h : Account gw req shown result)
    {hit : CacheHit} (hfound : .found hit ∈ shown) : result = hitResult req hit := by
  cases h with
  | hit reservation hit' latency =>
    obtain rfl : hit = hit' := by simpa using hfound
    rfl
  | live h =>
    obtain ⟨backend, client, content, tokensIn, tokensOut, finishReason, calls, settled, -,
      hcalls, -, hsettles, rfl, -⟩ := h
    have hcalled : .found hit ∉ calls := fun hmem => by simpa using hcalls _ hmem
    simp [hcalled, hsettles.unfound hit] at hfound

theorem result_of_found (h : Pool.Reachable (askedOf cache gw table asks) w)
    (hnodup : (w.tasks.map Prod.fst).Nodup) (hask : (asks tag).request? = some req)
    (hyields : Yields asks w tag result) {hit : CacheHit}
    (hfound : .found hit ∈ books (Pool.own tag w.history)) : result = hitResult req hit := by
  obtain ⟨shown, hshown, haccount⟩ := account_of_yields h hnodup hask hyields
  exact haccount.of_found ((mem_shownTo (by simp)).mp (hshown ▸ hfound))

end Pools

/-- In every pool and for every chat request that has been given a result, from the cache or
by a backend, the result, the log row, the charge that the limiter keeps and the writes to
the cache have the same tokens, and so has the answer that a hit repeats. -/
theorem books_agree (cache : TwoTierCache) (gw : RequestOrchestrator) (table : List Backend)
    (asks : Nat → Ask) {w : Pool Nat Running Op Reply Outcome}
    (h : Pool.Reachable (askedOf cache gw table asks) w) (hnodup : (w.tasks.map Prod.fst).Nodup)
    (hcolumns : IntegerColumns w.history) {tag : Nat} {req : ChatRequest}
    (hask : (asks tag).request? = some req) {result : CompletionResult}
    (hyields : Yields asks w tag result) :
    BooksAgree req (books (Pool.own tag w.history)) result ∧
    ∀ hit, .found hit ∈ books (Pool.own tag w.history) →
      ∃ before lookup after, w.history = before ++ (tag, lookup) :: after ∧
        book lookup = some (.found hit) ∧ Repeats asks w before result := by
  refine ⟨agree_of_yields h hnodup hcolumns hask hyields, fun hit hfound => ?_⟩
  obtain rfl := result_of_found h hnodup hask hyields hfound
  obtain ⟨lookup, hmem, hlookup⟩ := List.mem_filterMap.mp hfound
  obtain ⟨before, after, hhistory⟩ := List.append_of_mem (Pool.mem_own.mp hmem)
  have hsound := (cacheOrigins (reachable_hotReload h)).sound before _ after hhistory
  obtain ⟨writer, ev, hev, hwrote⟩ := hsound.exists_wrote hlookup
  refine ⟨before, lookup, after, hhistory, hlookup, writer, ev, hev, hwrote, ?_⟩
  intro result' hyields'
  have hmem' : (writer, ev) ∈ w.history := by
    rw [hhistory]
    exact List.mem_append_left _ hev
  have hsame := written_of_yields h hnodup hyields' hmem' hwrote
  obtain ⟨hcontent, hin, hout⟩ := Payload.mk.inj hsame
  exact ⟨hcontent.symm, hin.symm, hout.symm⟩

/-! ## An answer and its repetition -/

/-- Streams of a few tokens that stop at a length limit, and an L1 that takes puts. -/
def answerStreams : Program.Handler Op Reply Running := fun s op =>
  match op with
  | .exactPut model promptHash content tokensIn tokensOut =>
    (.ok (), { s with world := { s.world with
      l1 := sampleCache.l1.put s.world.l1 0 model promptHash content tokensIn tokensOut } })
  | .stream .. => (.ok [.text "hello", .usage ⟨3, 2, some "length"⟩], s)
  | .anext _ => (.ok (), s)
  | op => answerOnce s op

/-- A reload, and then the same request twice. -/
def twice : Nat → Ask
  | 0 => .reload
  | _ => .stream hiRequest

theorem answerStreams_handle (s : Running) (op : Op) : (askedOf sampleCache zeroDigest flaky
    twice).handle s op (answerStreams s op).1 (answerStreams s op).2 := by
  cases op with
  | exactPut => exact ⟨.inl ⟨0, rfl⟩, le_rfl, trivial⟩
  | stream | anext => exact ⟨rfl, le_rfl, trivial⟩
  | _ => exact answerOnce_handle sampleCache zeroDigest flaky s _

/-- The second request starts after the first one has ended. -/
def answeredTwice : Pool Nat Running Op Reply Outcome :=
  Pool.schedule answerStreams ⟨⟨⟨Strings.empty, [], flaky, {}⟩, 0⟩, [],
      [0, 1, 2].map fun tag => (tag, (twice tag).program zeroDigest)⟩
    (List.replicate 3 0 ++ List.replicate 24 1 ++ List.replicate 9 2)

theorem answeredTwice_reachable :
    Pool.Reachable (askedOf sampleCache zeroDigest flaky twice) answeredTwice := by
  have hstarts : ∀ task ∈ [0, 1, 2].map fun tag => (tag, (twice tag).program zeroDigest),
      (askedOf sampleCache zeroDigest flaky twice).starts task.1 task.2 :=
    List.forall_mem_map.mpr fun tag _ => rfl
  exact .schedule answerStreams_handle (.starts .initial hstarts) _

def firstAnswer : CompletionResult := ⟨"hello", "m", 3, 2, some "length", none, some "b"⟩

def secondAnswer : CompletionResult := ⟨"hello", "m", 3, 2, none, some .l1, none⟩

theorem answeredTwice_tags : (answeredTwice.tasks.map Prod.fst).Nodup := by
  unfold answeredTwice twice Ask.program handleStream
  rw [walk_evaluates]
  decide +kernel

theorem answeredTwice_yields : Yields twice answeredTwice 1 firstAnswer ∧
    Yields twice answeredTwice 2 secondAnswer := by
  have hbooks : .yielded firstAnswer ∈ books (Pool.own 1 answeredTwice.history) ∧
      .yielded secondAnswer ∈ books (Pool.own 2 answeredTwice.history) := by
    unfold answeredTwice twice Ask.program handleStream
    rw [walk_evaluates]
    decide +kernel
  obtain ⟨first, hfirst⟩ := yielded_mem_books.mp hbooks.1
  obtain ⟨second, hsecond⟩ := yielded_mem_books.mp hbooks.2
  exact ⟨⟨first, Pool.mem_own.mp hfirst⟩, second, Pool.mem_own.mp hsecond⟩

theorem answeredTwice_columns : IntegerColumns answeredTwice.history := by
  have hrows : ∀ row ∈ (books (answeredTwice.history.map Prod.snd)).filterMap BookEntry.row?,
      (-2 ^ 31 ≤ row.tokensIn ∧ row.tokensIn < 2 ^ 31) ∧
        -2 ^ 31 ≤ row.tokensOut ∧ row.tokensOut < 2 ^ 31 := by
    unfold answeredTwice twice Ask.program handleStream
    rw [walk_evaluates]
    decide +kernel
  intro tag row u hmem
  have hevent : ⟨.insertLog row, .ok u⟩ ∈ answeredTwice.history.map Prod.snd :=
    List.mem_map.mpr ⟨_, hmem, rfl⟩
  have hlogged : .logged row ∈ books (answeredTwice.history.map Prod.snd) :=
    List.mem_filterMap.mpr ⟨_, hevent, rfl⟩
  exact hrows row (List.mem_filterMap.mpr ⟨_, hlogged, rfl⟩)

/-- The second request is charged what the first one was. -/
theorem books_agree_repeated :
    BooksAgree hiRequest (books (Pool.own 2 answeredTwice.history)) secondAnswer ∧
    ∀ hit, .found hit ∈ books (Pool.own 2 answeredTwice.history) →
      ∃ before lookup after, answeredTwice.history = before ++ (2, lookup) :: after ∧
        book lookup = some (.found hit) ∧ Repeats twice answeredTwice before secondAnswer :=
  books_agree sampleCache zeroDigest flaky twice answeredTwice_reachable answeredTwice_tags
    answeredTwice_columns rfl answeredTwice_yields.2

end InferenceGateway.Orchestrator
