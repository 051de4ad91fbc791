import InferenceGateway.Orchestrator.Traces

/-!
# The books of a request

A request leaves its traces in four books: the limiter, the log, the cache and the result
that the client gets. `books` reads their entries off a trace. A request that produces a
result has one of two accounts: that of a cache hit, or that of a live answer.
-/
namespace InferenceGateway.Orchestrator
open Library Library.Action Resilience.RateLimit

variable {α β : Type}

inductive BookEntry where
  | reserved (reservation : ReservationId)
  /-- A tier has answered a lookup. -/
  | found (hit : CacheHit)
  | offered (model : String) (candidates : List (Backend × Client))
  /-- A call or a stream has been opened. -/
  | called
  /-- A write to either tier, and whether it has returned. -/
  | cached (model promptHash content : String) (tokensIn tokensOut : Int) (returned : Bool)
  | stored (entry : CacheEntry) (returned : Bool)
  | reconciled (apiKeyId : Uuid) (reservation : ReservationId) (actualTokens : Int)
  | logged (row : RequestLog)
  | yielded (result : CompletionResult)
  deriving DecidableEq

/-- The entry that an event makes. -/
def book : Event → Option BookEntry
  | ⟨.reserve .., .ok (some reservation)⟩ => some (.reserved reservation)
  | ⟨.exactGet .., .ok (some hit)⟩ => some (.found hit)
  | ⟨.findSimilar .., .ok (some entry)⟩ =>
    some (.found ⟨entry.response, entry.tokensIn, entry.tokensOut, .l2⟩)
  | ⟨.candidates model, .ok pairs⟩ => some (.offered model pairs)
  | ⟨.complete .., _⟩ | ⟨.stream .., _⟩ => some .called
  | ⟨.exactPut model promptHash content tokensIn tokensOut, r⟩ =>
    some (.cached model promptHash content tokensIn tokensOut r.isOk)
  | ⟨.insertEntry entry, r⟩ => some (.stored entry r.isOk)
  | ⟨.reconcile apiKeyId reservation actualTokens, .ok _⟩ =>
    some (.reconciled apiKeyId reservation actualTokens)
  | ⟨.insertLog row, .ok _⟩ => some (.logged row)
  | ⟨.emit (.result result), _⟩ => some (.yielded result)
  | _ => none

def books (trace : List Event) : List BookEntry := trace.filterMap book

@[simp] theorem books_nil : books [] = [] := rfl

@[simp] theorem books_append (trace trace' : List Event) :
    books (trace ++ trace') = books trace ++ books trace' := List.filterMap_append

theorem books_cons (ev : Event) (trace : List Event) :
    books (ev :: trace) = (book ev).toList ++ books trace := by
  cases h : book ev <;> simp [books, h]

@[simp] theorem books_yield (result : CompletionResult)
    (reply : Reply (.emit (.result result))) :
    books [⟨.emit (.result result), reply⟩] = [.yielded result] := by
  rw [books_cons]
  rfl

theorem eq_emit_of_book {ev : Event} {result : CompletionResult}
    (h : book ev = some (.yielded result)) : ∃ reply, ev = ⟨.emit (.result result), reply⟩ := by
  unfold book at h
  split at h <;> simp only [Option.some.injEq, BookEntry.yielded.injEq, reduceCtorEq] at h
  subst h
  exact ⟨_, rfl⟩

theorem yielded_mem_books {trace : List Event} {result : CompletionResult} :
    .yielded result ∈ books trace ↔ ∃ reply, ⟨.emit (.result result), reply⟩ ∈ trace := by
  rw [books, List.mem_filterMap]
  constructor
  · rintro ⟨ev, hev, hbook⟩
    obtain ⟨reply, rfl⟩ := eq_emit_of_book hbook
    exact ⟨reply, hev⟩
  · rintro ⟨reply, hev⟩
    exact ⟨_, hev, rfl⟩

/-- Some operation has raised. -/
def HasRaised (trace : List Event) : Prop := ∃ op e, ⟨op, .error e⟩ ∈ trace

theorem HasRaised.right {trace : List Event} (h : HasRaised trace) (trace' : List Event) :
    HasRaised (trace' ++ trace) :=
  have ⟨op, e, hmem⟩ := h
  ⟨op, e, List.mem_append_right _ hmem⟩

/-! ## Parts that go on -/

/-- Any reply. -/
abbrev anyReply : Contract := .expecting fun _ _ => True

/-- No result is yielded. -/
def Unyielded (trace : List Event) : Prop := ∀ result, .yielded result ∉ books trace

theorem Unyielded.append {trace trace' : List Event} (h : Unyielded trace)
    (h' : Unyielded trace') : Unyielded (trace ++ trace') := by
  intro result
  rw [books_append, List.mem_append, not_or]
  exact ⟨h result, h' result⟩

/-- The part makes these entries and yields no result, or one of its operations raises. -/
def Shows (x : Action α) (R : List BookEntry → α → Prop) : Prop :=
  wp anyReply x fun trace r => Unyielded trace ∧
    match r with
    | .ok a => R (books trace) a
    | .error _ => HasRaised trace

/-- The part makes no entries. -/
abbrev Blank (x : Action α) : Prop := Shows x fun shown _ => shown = []

section Rules
variable {x : Action α} {f : α → Action β} {R : List BookEntry → α → Prop}
  {R' : List BookEntry → β → Prop}

theorem Shows.pure {a : α} (h : R [] a) : Shows (pure a) R := ⟨fun result => by simp, h⟩

theorem Shows.mono (h : Shows x R) {R₂ : List BookEntry → α → Prop}
    (hR : ∀ shown a, R shown a → R₂ shown a) : Shows x R₂ := by
  refine wp_mono h fun trace r hr => ⟨hr.1, ?_⟩
  cases r with
  | error e => exact hr.2
  | ok a => exact hR _ a hr.2

theorem Shows.bind (hx : Shows x R)
    (hf : ∀ shown a, R shown a → Shows (f a) fun shown' b => R' (shown ++ shown') b) :
    Shows (x >>= f) R' := by
  refine (wp_bind _).mpr (wp_mono hx fun trace r hr => ?_)
  obtain ⟨hquiet, hr⟩ := hr
  cases r with
  | error e => exact ⟨hquiet, hr⟩
  | ok a =>
    refine wp_mono (hf _ a hr) fun trace' r' hr' => ?_
    rw [books_append]
    refine ⟨hquiet.append hr'.1, ?_⟩
    cases r' with
    | error e => exact hr'.2.right trace
    | ok b => exact hr'.2

/-- A part and what ends the request after it. -/
theorem Shows.wp_bind (hx : Shows x R) {Q : List Event → Except Raised β → Prop}
    (hraised : ∀ trace e, HasRaised trace → Unyielded trace →
      Q trace (.error e))
    (hf : ∀ trace a, R (books trace) a → Unyielded trace →
      wp anyReply (f a) fun trace' r => Q (trace ++ trace') r) :
    wp anyReply (x >>= f) Q := by
  refine (Library.Action.wp_bind _).mpr (wp_mono hx fun trace r hr => ?_)
  cases r with
  | error e => exact hraised trace e hr.2 hr.1
  | ok a => exact hf trace a hr.2 hr.1

theorem Shows.call {op : Op} {R : List BookEntry → Ret op → Prop}
    (hquiet : ∀ result, op ≠ .emit (.result result))
    (h : ∀ a, R (books [⟨op, .ok a⟩]) a) : Shows (call op) R := by
  refine (wp_call _ _).mpr ⟨trivial, fun r _ => ⟨fun result hresult => ?_, ?_⟩⟩
  · obtain ⟨reply, hreply⟩ := yielded_mem_books.mp hresult
    exact hquiet result (congrArg Sigma.fst (List.mem_singleton.mp hreply)).symm
  · cases r with
    | error e => exact ⟨op, e, List.mem_singleton_self _⟩
    | ok a => exact h a

/-- One operation and the rest. -/
theorem Shows.perform {op : Op} {f : Ret op → Action β}
    (hquiet : ∀ result, op ≠ .emit (.result result))
    (hf : ∀ a, Shows (f a) fun shown b => R' (books [⟨op, .ok a⟩] ++ shown) b) :
    Shows (Library.Action.call op >>= f) R' := by
  refine Shows.bind (R := fun shown a => shown = books [⟨op, .ok a⟩])
    (Shows.call hquiet fun _ => rfl) ?_
  rintro _ a rfl
  exact hf a

end Rules

/-! ## The parts of both handlers -/

section Parts
variable (gw : RequestOrchestrator) (req : ChatRequest)

theorem blank_incr (metric : String) (labels : List (String × String)) :
    Blank (incr gw metric labels) := by
  unfold incr
  split
  · exact Shows.call (by simp) fun _ => rfl
  · exact Shows.pure rfl

theorem blank_observe (metric : String) (value : ℚ) (labels : List (String × String)) :
    Blank (observe gw metric value labels) := by
  unfold observe
  split
  · exact Shows.call (by simp) fun _ => rfl
  · exact Shows.pure rfl

/-- A lookup finds what it returns. -/
theorem shows_lookup :
    Shows (lookup gw req) fun shown hit => shown = (hit.map BookEntry.found).toList := by
  unfold lookup
  split
  · exact Shows.pure rfl
  · refine Shows.perform (by simp) fun hit => ?_
    cases hit with
    | some hit => exact Shows.pure rfl
    | none =>
      refine Shows.perform (by simp) fun embedding => ?_
      cases embedding with
      | none => exact Shows.pure rfl
      | some embedding =>
        refine Shows.perform (by simp) fun entry => Shows.pure ?_
        cases entry <;> rfl

/-- The row of a hit, but for its latency. -/
def hitRow (latency : Int) (hit : CacheHit) : RequestLog :=
  { apiKeyId := req.apiKey.id, model := req.model, latencyMs := latency, status := 200,
    cacheTier := some hit.tier.value, tokensIn := hit.tokensIn, tokensOut := hit.tokensOut }

theorem shows_chargeHit (start : Time) (reservation : ReservationId) (hit : CacheHit) :
    Shows (chargeHit gw req start reservation hit) fun shown _ => ∃ latency,
      shown = [.reconciled req.apiKey.id reservation (hit.tokensIn + hit.tokensOut),
        .logged (hitRow req latency hit)] := by
  unfold chargeHit
  refine Shows.perform (by simp) fun _ => ?_
  refine Shows.perform (by simp) fun now => ?_
  refine Shows.perform (by simp) fun _ => ?_
  refine (blank_incr gw _ _).mono fun shown _ hshown => ⟨latencyMs start now, ?_⟩
  rw [hshown]
  rfl

/-- What an answer is written to: nothing on bypass, else L1, and L2 if there are
embeddings. -/
inductive Writes (content : String) (tokensIn tokensOut : Int) : List BookEntry → Prop
  | bypassed (h : req.bypassCache = true) : Writes content tokensIn tokensOut []
  | l1 (h : req.bypassCache = false) : Writes content tokensIn tokensOut
      [.cached req.model (promptHash gw.sha256 req.model req.messages) content tokensIn tokensOut
        true]
  | both (h : req.bypassCache = false) (embedding : Embedding) :
      Writes content tokensIn tokensOut
        [.cached req.model (promptHash gw.sha256 req.model req.messages) content tokensIn
          tokensOut true,
        .stored ⟨req.model, promptHash gw.sha256 req.model req.messages, embedding, content,
          tokensIn, tokensOut⟩ true]

theorem shows_store (content : String) (tokensIn tokensOut : Int) :
    Shows (store gw req content tokensIn tokensOut) fun shown _ =>
      Writes gw req content tokensIn tokensOut shown := by
  unfold store
  split
  · rename_i hbypass
    exact Shows.pure (.bypassed hbypass)
  · rename_i hbypass
    have hbypass : req.bypassCache = false := by simpa using hbypass
    refine Shows.perform (by simp) fun _ => ?_
    refine Shows.perform (by simp) fun embedding => ?_
    cases embedding with
    | none => exact Shows.pure (.l1 hbypass)
    | some embedding => exact Shows.call (by simp) fun _ => .both hbypass embedding

/-- The row of a live answer. -/
def liveRow (latency : Int) (backend : Backend) (tokensIn tokensOut : Int)
    (finishReason : Option String) : RequestLog :=
  { apiKeyId := req.apiKey.id, model := req.model, latencyMs := latency, status := 200,
    backendId := some backend.id, tokensIn, tokensOut, cost := cost backend tokensIn tokensOut,
    finishReason }

/-- The entries of an answer after its call. -/
def Settles (reservation : ReservationId) (backend : Backend) (content : String)
    (tokensIn tokensOut : Int) (finishReason : Option String) (shown : List BookEntry) : Prop :=
  ∃ writes latency, Writes gw req content tokensIn tokensOut writes ∧
    shown = writes ++ [.reconciled req.apiKey.id reservation (tokensIn + tokensOut),
      .logged (liveRow req latency backend tokensIn tokensOut finishReason)]

theorem shows_settle (start : Time) (reservation : ReservationId) (backend : Backend)
    (content : String) (tokensIn tokensOut : Int) (finishReason : Option String) :
    Shows (settle gw req start reservation backend content tokensIn tokensOut finishReason)
      fun shown _ =>
        Settles gw req reservation backend content tokensIn tokensOut finishReason shown := by
  simp only [settle, latencyRecord, bind_assoc]
  refine Shows.perform (by simp) fun now => ?_
  refine Shows.perform (by simp) fun _ => ?_
  refine Shows.perform (by simp) fun _ => ?_
  refine Shows.perform (by simp) fun _ => ?_
  refine Shows.bind (shows_store gw req content tokensIn tokensOut) fun writes _ hwrites => ?_
  refine Shows.perform (by simp) fun _ => ?_
  refine Shows.perform (by simp) fun _ => ?_
  exact Shows.pure ⟨writes, latencyMs start now, hwrites, rfl⟩

end Parts

/-! ## Accounts -/

/-- Nothing but calls. -/
def Calls (shown : List BookEntry) : Prop := ∀ entry ∈ shown, entry = .called

/-- A live answer of one of the candidates: calls, of which the last one is answered, and
the entries of the answer. -/
def LiveAccount (gw : RequestOrchestrator) (req : ChatRequest) (reservation : ReservationId)
    (candidates : List (Backend × Client)) (shown : List BookEntry)
    (result : CompletionResult) : Prop :=
  ∃ backend client content tokensIn tokensOut finishReason calls settled,
    (backend, client) ∈ candidates ∧ Calls calls ∧ calls ≠ [] ∧
    Settles gw req reservation backend content tokensIn tokensOut finishReason settled ∧
    shown = calls ++ settled ∧
    result = ⟨content, backend.model, tokensIn, tokensOut, finishReason, none, some backend.name⟩

/-- What a request that produces a result has written into its books before that. -/
inductive Account (gw : RequestOrchestrator) (req : ChatRequest) :
    List BookEntry → CompletionResult → Prop
  | hit (reservation : ReservationId) (hit : CacheHit) (latency : Int) :
      Account gw req [.reserved reservation, .found hit,
        .reconciled req.apiKey.id reservation (hit.tokensIn + hit.tokensOut),
        .logged (hitRow req latency hit)] (hitResult req hit)
  | live {reservation : ReservationId} {candidates : List (Backend × Client)}
      {shown : List BookEntry} {result : CompletionResult}
      (h : LiveAccount gw req reservation candidates shown result) :
      Account gw req (.reserved reservation :: .offered req.model candidates :: shown) result

/-- How a handler gives its result away, and the entry that this makes. -/
structure Producer (α : Type) where
  produces : List Event → Except Raised α → CompletionResult → Prop
  last : CompletionResult → List BookEntry
  after : ∀ {trace trace' : List Event} {r : Except Raised α} {result : CompletionResult},
    Unyielded trace → (produces (trace ++ trace') r result ↔ produces trace' r result)
  raised : ∀ {trace : List Event} {e : Raised} {result : CompletionResult},
    Unyielded trace → ¬ produces trace (.error e) result

/-- `handle_complete` returns its result. -/
def returning : Producer CompletionResult where
  produces _ r result := r = .ok result
  last _ := []
  after _ := Iff.rfl
  raised _ := by simp

/-- `handle_stream` yields it. -/
def yielding : Producer Unit where
  produces trace _ result := .yielded result ∈ books trace
  last result := [.yielded result]
  after h := by
    rw [books_append, List.mem_append]
    exact or_iff_right (h _)
  raised h := h _

section Accounts
variable (D : Producer α)

/-- Whatever result is produced, it is produced last and this is its account. -/
def Kept (account : List BookEntry → CompletionResult → Prop) (trace : List Event)
    (r : Except Raised α) : Prop :=
  ∀ result, D.produces trace r result →
    ∃ shown, books trace = shown ++ D.last result ∧ account shown result

/-- Nothing has been found in the cache. -/
def Unfound (trace : List Event) : Prop := ∀ hit, .found hit ∉ books trace

variable {D} {account account' : List BookEntry → CompletionResult → Prop}

theorem Kept.of_raised {trace : List Event} {e : Raised} (h : Unyielded trace) :
    Kept D account trace (.error e) := fun _ hresult => absurd hresult (D.raised h)

/-- Entries before the rest of the account. -/
theorem Kept.after {trace trace' : List Event} {r : Except Raised α} (h : Unyielded trace)
    (hkept : Kept D account trace' r)
    (haccount : ∀ shown result, account shown result → account' (books trace ++ shown) result) :
    Kept D account' (trace ++ trace') r := by
  intro result hresult
  obtain ⟨shown, hshown, hrest⟩ := hkept result ((D.after h).mp hresult)
  exact ⟨books trace ++ shown, by rw [books_append, hshown, List.append_assoc],
    haccount shown result hrest⟩

theorem Unfound.append {trace trace' : List Event} (h : Unfound trace) (h' : Unfound trace') :
    Unfound (trace ++ trace') := by
  intro hit
  rw [books_append, List.mem_append, not_or]
  exact ⟨h hit, h' hit⟩

theorem Calls.unyielded {trace : List Event} (h : Calls (books trace)) : Unyielded trace :=
  fun _ hmem => by simpa using h _ hmem

theorem Calls.unfound {trace : List Event} (h : Calls (books trace)) : Unfound trace :=
  fun _ hmem => by simpa using h _ hmem

theorem Settles.unfound {gw : RequestOrchestrator} {req : ChatRequest}
    {reservation : ReservationId} {backend : Backend} {content : String}
    {tokensIn tokensOut : Int} {finishReason : Option String} {shown : List BookEntry}
    (h : Settles gw req reservation backend content tokensIn tokensOut finishReason shown)
    (hit : CacheHit) : .found hit ∉ shown := by
  obtain ⟨writes, latency, hwrites, rfl⟩ := h
  cases hwrites <;> simp

end Accounts

/-! ## Calls -/

/-- The events make no entries. -/
theorem books_eq_nil {trace : List Event} (h : ∀ ev ∈ trace, book ev = none) :
    books trace = [] := List.filterMap_eq_nil_iff.mpr h

theorem book_of_opens {client : Client} {ev : Event} (h : Opens client ev.1) :
    book ev = some .called := by
  obtain ⟨op, reply⟩ := ev
  cases op <;> first | rfl | exact h.elim

theorem book_of_continueOp {client : Client} {ev : Event} (h : ContinueOp client ev.1) :
    book ev = none := by
  obtain ⟨op, reply⟩ := ev
  cases op with
  | anext => rfl
  | emit event =>
    obtain ⟨chunk, rfl⟩ := h
    rfl
  | _ => exact h.elim

/-- A call makes one entry if it gets past the semaphore. -/
theorem CallTrace.books_eq {backend : Backend} {client : Client} {trace : List Event}
    {r : Except Raised Unit} (h : CallTrace backend client trace r) :
    books trace = [.called] ∨ (books trace = [] ∧ ∃ e, r = .error e) := by
  cases h with
  | @blocked e => exact .inr ⟨rfl, e, rfl⟩
  | @entered opening rest ended hopens hops hended left =>
    have hrest : books rest = [] := books_eq_nil fun ev hev => book_of_continueOp (hops ev hev)
    refine .inl ?_
    rw [books_cons, books_append, books_cons, book_of_opens hopens, hrest]
    rfl

theorem CallTrace.calls {backend : Backend} {client : Client} {trace : List Event}
    {r : Except Raised Unit} (h : CallTrace backend client trace r) : Calls (books trace) := by
  obtain heq | ⟨heq, -⟩ := h.books_eq <;> simp [Calls, heq]

/-! ## Passes and the loop -/

/-- Nothing has been found, or something has raised. -/
def Excused (trace : List Event) : Prop := Unfound trace ∨ HasRaised trace

theorem Unfound.excused_append {trace trace' : List Event} (h : Unfound trace)
    (h' : Excused trace') : Excused (trace ++ trace') := by
  obtain hnone | hraised := h'
  · exact .inl (h.append hnone)
  · exact .inr (hraised.right trace)

section Loop
variable (D : Producer α) (gw : RequestOrchestrator) (req : ChatRequest)
  (reservation : ReservationId)

/-- What the loop leaves for these candidates. -/
def WalkBooks (candidates : List (Backend × Client)) (trace : List Event)
    (r : Except Raised α) : Prop :=
  Excused trace ∧ Kept D (LiveAccount gw req reservation candidates) trace r

/-- What a pass over an admitted candidate leaves: calls only if the loop goes on. -/
def PassBooks (backend : Backend) (client : Client) (trace : List Event) :
    Except Raised (Pass α) → Prop
  | .ok (.next _) => Calls (books trace)
  | .ok (.done a) => WalkBooks D gw req reservation [(backend, client)] trace (.ok a)
  | .error e => WalkBooks D gw req reservation [(backend, client)] trace (.error e)

variable {D gw req reservation} {backend : Backend} {client : Client}

theorem PassBooks.of_error {trace : List Event} {e : Raised} (hexcused : Excused trace)
    (hunyielded : Unyielded trace) :
    PassBooks D gw req reservation backend client trace (.error e) :=
  ⟨hexcused, .of_raised hunyielded⟩

/-- A pass after a failed call. -/
theorem PassBooks.of_failed {call : List Event} (hcall : Calls (books call))
    {x : Action (Pass α)} {R : List BookEntry → Pass α → Prop} (hx : Shows x R)
    (hR : ∀ shown pass, R shown pass → shown = [] ∧ ∃ err, pass = .next err) :
    wp anyReply x fun trace r =>
      PassBooks D gw req reservation backend client (call ++ trace) r := by
  refine wp_mono hx fun trace r hr => ?_
  cases r with
  | error e =>
    exact .of_error (.inr (hr.2.right call)) (hcall.unyielded.append hr.1)
  | ok pass =>
    obtain ⟨hshown, err, rfl⟩ := hR _ _ hr.2
    simpa [PassBooks, hshown] using hcall

/-- The account of an answered call. -/
theorem liveAccount_single {content : String} {tokensIn tokensOut : Int}
    {finishReason : Option String} {calls shown : List BookEntry} (hcalls : calls = [.called])
    (hsettles : Settles gw req reservation backend content tokensIn tokensOut finishReason shown) :
    LiveAccount gw req reservation [(backend, client)] (calls ++ shown)
      ⟨content, backend.model, tokensIn, tokensOut, finishReason, none, some backend.name⟩ :=
  ⟨backend, client, content, tokensIn, tokensOut, finishReason, calls, shown,
    List.mem_singleton_self _, by simp [Calls, hcalls], by simp [hcalls], hsettles, rfl, rfl⟩

theorem body_complete_books (start : Time) (backend : Backend) (client : Client) :
    wp anyReply (completeWith gw req start reservation backend client)
      (PassBooks returning gw req reservation backend client) := by
  have hadmits : Admits anyReply gw req := .of_allowed fun _ => trivial
  unfold completeWith
  refine (wp_bind _).mpr ((wp_attempt _).mpr
    (wp_mono (callTrace_complete hadmits backend client) ?_))
  rintro call outcome ⟨hcall, -⟩
  have hcalls := hcall.calls
  cases outcome with
  | error e =>
    dsimp only
    split
    · refine PassBooks.of_failed hcalls (R := fun shown pass => shown = [] ∧
        ∃ err, pass = .next err) (Shows.perform (by simp) fun _ => ?_) fun _ _ h => h
      refine Shows.bind (blank_incr gw _ _) fun shown _ hshown => Shows.pure ?_
      exact ⟨by simp [hshown, book, books], _, rfl⟩
    · refine (wp_throw _ _).mpr ?_
      rw [List.append_nil]
      exact .of_error (.inl hcalls.unfound) hcalls.unyielded
  | ok completion =>
    have hone : books call = [.called] := hcall.books_eq.resolve_right fun hblocked => by
      obtain ⟨-, e, he⟩ := hblocked
      simp [Except.map] at he
    have hrest : Shows (settle gw req start reservation backend completion.content
        completion.tokensIn completion.tokensOut (some "stop") >>= fun latency => do
          incr gw "gateway_backend_calls_total" [("backend", backend.name), ("outcome", "ok")]
          observe gw "gateway_request_latency_seconds" (latency / 1000) [("cache", "miss")]
          return Pass.done (⟨completion.content, backend.model, completion.tokensIn,
            completion.tokensOut, some "stop", none, some backend.name⟩ : CompletionResult))
        fun shown pass => Settles gw req reservation backend completion.content
          completion.tokensIn completion.tokensOut (some "stop") shown ∧ pass = .done
            ⟨completion.content, backend.model, completion.tokensIn, completion.tokensOut,
              some "stop", none, some backend.name⟩ := by
      refine Shows.bind (shows_settle gw req start reservation backend _ _ _ _) ?_
      intro shown latency hsettles
      refine Shows.bind (blank_incr gw _ _) fun shown' _ hshown' => ?_
      refine Shows.bind (blank_observe gw _ _ _) fun shown'' _ hshown'' => Shows.pure ?_
      exact ⟨by simpa [hshown', hshown''] using hsettles, rfl⟩
    refine wp_mono hrest fun trace r hr => ?_
    cases r with
    | error e => exact .of_error (.inr (hr.2.right call)) (hcalls.unyielded.append hr.1)
    | ok pass =>
      obtain ⟨hsettles, rfl⟩ := hr.2
      refine ⟨.inl (hcalls.unfound.append hsettles.unfound), ?_⟩
      rintro result hresult
      obtain rfl := Except.ok.inj hresult
      exact ⟨books call ++ books trace, by simp [returning], liveAccount_single hone hsettles⟩

/-- The result of a stream that has been settled, whether or not the consumer takes it. -/
theorem WalkBooks.of_yielded {opened trace : List Event} {content : String}
    {tokensIn tokensOut : Int} {finishReason : Option String}
    (hone : books opened = [.called]) (hquiet : Unyielded (opened ++ trace))
    (hsettles : Settles gw req reservation backend content tokensIn tokensOut finishReason
      (books trace))
    (reply : Reply (.emit (.result ⟨content, backend.model, tokensIn, tokensOut, finishReason, none,
      some backend.name⟩))) (r : Except Raised Unit) :
    WalkBooks yielding gw req reservation [(backend, client)]
      (opened ++ (trace ++ [⟨.emit (.result ⟨content, backend.model, tokensIn, tokensOut,
        finishReason, none, some backend.name⟩), reply⟩])) r := by
  have hunfound : Unfound (opened ++ trace) :=
    Unfound.append (by simp [Unfound, hone]) hsettles.unfound
  rw [← List.append_assoc]
  refine ⟨.inl (hunfound.append (by simp [Unfound])), fun result hresult => ?_⟩
  have hsame := (yielding.after hquiet).mp hresult
  simp only [yielding, books_yield, List.mem_singleton, BookEntry.yielded.injEq] at hsame
  subst hsame
  exact ⟨books opened ++ books trace, by simp [yielding], liveAccount_single hone hsettles⟩

theorem body_stream_books (start : Time) (backend : Backend) (client : Client) :
    wp anyReply (streamWith gw req start reservation backend client)
      (PassBooks yielding gw req reservation backend client) := by
  have hadmits : Admits anyReply gw req := .of_allowed fun _ => trivial
  unfold streamWith
  refine (wp_bind _).mpr (wp_mono (callTrace_stream hadmits backend client) ?_)
  rintro opened outcome ⟨s, ended, rfl, hcall, -⟩
  have hcalls := hcall.calls
  cases ended with
  | error e =>
    dsimp only
    split
    · have hrecord : Blank (call (.record backend.id false)) := Shows.call (by simp) fun _ => rfl
      refine (wp_bind _).mpr (wp_mono hrecord fun trace r hr => ?_)
      have hquiet := hcalls.unyielded.append hr.1
      cases r with
      | error e' => exact .of_error (.inr (hr.2.right opened)) hquiet
      | ok u =>
        have hblank : Calls (books (opened ++ trace)) := by simpa [hr.2] using hcalls
        dsimp only
        split
        · refine (wp_throw _ _).mpr ?_
          rw [List.append_nil]
          exact .of_error (.inl hblank.unfound) hquiet
        · refine (wp_pure _ _).mpr ?_
          rw [List.append_nil]
          exact hblank
    · refine (wp_throw _ _).mpr ?_
      rw [List.append_nil]
      exact .of_error (.inl hcalls.unfound) hcalls.unyielded
  | ok u =>
    have hone : books opened = [.called] := hcall.books_eq.resolve_right fun hblocked => by
      obtain ⟨-, e, he⟩ := hblocked
      simp at he
    dsimp only
    generalize String.join s.accumulated = content
    generalize (s.usage.map Usage.tokensIn).getD 0 = tokensIn
    generalize (s.usage.map Usage.tokensOut).getD 0 = tokensOut
    generalize (s.usage.map Usage.finishReason).getD (some "stop") = finishReason
    have hsettled : Shows (settle gw req start reservation backend content tokensIn tokensOut
        finishReason >>= fun _ =>
          incr gw "gateway_backend_calls_total" [("backend", backend.name), ("outcome", "ok")])
        fun shown _ =>
          Settles gw req reservation backend content tokensIn tokensOut finishReason shown := by
      refine Shows.bind (shows_settle gw req start reservation backend _ _ _ _) ?_
      intro shown _ hsettles
      refine (blank_incr gw _ _).mono fun shown' _ hshown' => ?_
      rwa [hshown', List.append_nil]
    rw [← bind_assoc]
    refine (wp_bind _).mpr (wp_mono hsettled fun trace r hr => ?_)
    have hquiet := hcalls.unyielded.append hr.1
    cases r with
    | error e => exact .of_error (.inr (hr.2.right opened)) hquiet
    | ok u =>
      refine (wp_bind _).mpr ((wp_call _ _).mpr ⟨trivial, fun reply _ => ?_⟩)
      have hyielded : ∀ r, WalkBooks yielding gw req reservation [(backend, client)] _ r :=
        WalkBooks.of_yielded hone hquiet hr.2 reply
      cases reply with
      | error e => exact hyielded _
      | ok v => exact hyielded _

/-- More calls before the account of a live answer, and more candidates. -/
theorem LiveAccount.after {candidates candidates' : List (Backend × Client)}
    {calls shown : List BookEntry} {result : CompletionResult} (hcalls : Calls calls)
    (hsub : candidates ⊆ candidates')
    (h : LiveAccount gw req reservation candidates shown result) :
    LiveAccount gw req reservation candidates' (calls ++ shown) result := by
  obtain ⟨backend, client, content, tokensIn, tokensOut, finishReason, calls', settled, hmem,
    hcalls', hne, hsettles, rfl, hresult⟩ := h
  refine ⟨backend, client, content, tokensIn, tokensOut, finishReason, calls ++ calls', settled,
    hsub hmem, List.forall_mem_append.mpr ⟨hcalls, hcalls'⟩, by simp [hne], hsettles, ?_, hresult⟩
  rw [List.append_assoc]

theorem WalkBooks.after {candidates candidates' : List (Backend × Client)}
    {before trace : List Event} {r : Except Raised α} (hbefore : Calls (books before))
    (hsub : candidates ⊆ candidates') (h : WalkBooks D gw req reservation candidates trace r) :
    WalkBooks D gw req reservation candidates' (before ++ trace) r :=
  ⟨hbefore.unfound.excused_append h.1,
    h.2.after hbefore.unyielded fun _ _ haccount => haccount.after hbefore hsub⟩

theorem WalkBooks.of_calls {candidates : List (Backend × Client)} {trace : List Event} {e : Raised}
    (h : Calls (books trace)) : WalkBooks D gw req reservation candidates trace (.error e) :=
  ⟨.inl h.unfound, .of_raised h.unyielded⟩

theorem without_subset {chosenId : Uuid} {remaining : List (Backend × Client)} :
    without chosenId remaining ⊆ remaining := List.filter_subset_self _

/-- The failover loop. -/
theorem walk_books {stopped : Raised} {body : Backend → Client → Action (Pass α)}
    {exhausted : Option Raised → Action α}
    (hbody : ∀ backend client, wp anyReply (body backend client)
      (PassBooks D gw req reservation backend client))
    (hexhausted : ∀ err, wp anyReply (exhausted err) (WalkBooks D gw req reservation []))
    (remaining : List (Backend × Client)) (err : Option Raised) :
    wp anyReply (walk req stopped body exhausted remaining err)
      (WalkBooks D gw req reservation remaining) := by
  have hblank : ∀ (rem : List (Backend × Client)) (chosen : Reply (.select (rem.map Prod.fst)
      (features req))) (id : Uuid) (verdict : Reply (.allow id)),
      Calls (books [⟨.select (rem.map Prod.fst) (features req), chosen⟩, ⟨.allow id, verdict⟩]) :=
    fun rem chosen id verdict => by simp [Calls, books, book]
  suffices h : WalkRule anyReply req stopped body exhausted (fun _ _ => True)
      (fun remaining _ => WalkBooks D gw req reservation remaining) from h.wp_walk trivial
  refine ⟨fun _ _ => trivial, fun _ _ _ => .of_calls (by simp [Calls, books, book]),
    fun _ _ _ _ => .of_calls (by simp [Calls, books, book]), fun _ _ => trivial,
    fun _ _ _ => .of_calls (hblank _ _ _ _), fun _ _ _ _ => ⟨trivial, fun trace r hrest => ?_⟩, ?_,
    fun _ => hexhausted _⟩
  · exact hrest.after (hblank _ _ _ _) without_subset
  · intro rem err chosen backend client _ _ hpair _
    have hmem : [(backend, client)] ⊆ rem := by
      simpa using List.mem_of_find?_eq_some hpair
    refine wp_mono (hbody backend client) fun trace r hr => ?_
    cases r with
    | error e => exact hr.after (hblank _ _ _ _) hmem
    | ok pass =>
      cases pass with
      | done a => exact hr.after (hblank _ _ _ _) hmem
      | next err' =>
        refine ⟨trivial, fun trace' r' hrest => ?_⟩
        exact (hrest.after hr without_subset).after (hblank _ _ _ _) (List.Subset.refl _)

/-- Giving up yields nothing. -/
theorem exhausted_books (start : Time) {x : Action Unit} (hx : Blank x) (err : Option Raised) :
    wp anyReply (logUnavailable req start >>= fun _ => x >>= fun _ =>
        throw (.allBackendsUnavailable err)) (WalkBooks D gw req reservation []) := by
  have hrow : Shows (logUnavailable req start >>= fun _ => x) fun shown _ =>
      ∃ row, shown = [.logged row] := by
    refine Shows.bind (R := fun shown _ => ∃ row, shown = [.logged row]) ?_ ?_
    · unfold logUnavailable
      refine Shows.perform (by simp) fun now => Shows.call (by simp) fun _ => ?_
      exact ⟨_, rfl⟩
    · rintro _ _ ⟨row, rfl⟩
      exact hx.mono fun shown _ hshown => ⟨row, by rw [hshown]; rfl⟩
  rw [← bind_assoc]
  refine (wp_bind _).mpr (wp_mono hrow fun trace r hr => ?_)
  cases r with
  | error e => exact ⟨.inr hr.2, .of_raised hr.1⟩
  | ok u =>
    obtain ⟨row, hrow⟩ := hr.2
    refine (wp_throw _ _).mpr ?_
    rw [List.append_nil]
    exact ⟨.inl fun hit => by simp [hrow], .of_raised hr.1⟩

end Loop

/-! ## The handlers -/

section Handlers
variable (D : Producer α) (gw : RequestOrchestrator) (req : ChatRequest)

/-- What is written about a hit. -/
def HitAccount (reservation : ReservationId) (hit : CacheHit) (shown : List BookEntry)
    (result : CompletionResult) : Prop :=
  result = hitResult req hit ∧ ∃ latency, shown =
    [.reconciled req.apiKey.id reservation (hit.tokensIn + hit.tokensOut),
      .logged (hitRow req latency hit)]

/-- What follows a hit: its result, unless something raises. -/
def HitBooks (reservation : ReservationId) (hit : CacheHit) (trace : List Event)
    (r : Except Raised α) : Prop :=
  Kept D (HitAccount req reservation hit) trace r ∧
    ((∃ result, D.produces trace r result) ∨ HasRaised trace)

/-- What either handler leaves in its books. A request that has found something in the cache
produces a result, unless something raises. -/
structure RequestBooks (trace : List Event) (r : Except Raised α) : Prop where
  account : Kept D (Account gw req) trace r
  answered : ∀ hit, .found hit ∈ books trace →
    (∃ result, D.produces trace r result) ∨ HasRaised trace

variable {D gw req}

theorem RequestBooks.of_raised {trace : List Event} {e : Raised} (hraised : HasRaised trace)
    (hquiet : Unyielded trace) : RequestBooks D gw req trace (.error e) :=
  ⟨.of_raised hquiet, fun _ _ => .inr hraised⟩

theorem RequestBooks.of_excused {trace : List Event} {r : Except Raised α}
    (hexcused : Excused trace) (hkept : Kept D (Account gw req) trace r) :
    RequestBooks D gw req trace r :=
  ⟨hkept, fun hit hfound => .inr (hexcused.resolve_left fun hnone => hnone hit hfound)⟩

theorem complete_hit_books (start : Time) (reservation : ReservationId) (hit : CacheHit) :
    wp anyReply (completeHit gw req start reservation hit)
      (HitBooks returning req reservation hit) := by
  refine (wp_bind _).mpr (wp_mono (shows_chargeHit gw req start reservation hit) ?_)
  intro trace r hr
  cases r with
  | error e => exact ⟨.of_raised hr.1, .inr hr.2⟩
  | ok u =>
    obtain ⟨latency, hshown⟩ := hr.2
    refine (wp_pure _ _).mpr ⟨fun result hresult => ?_, .inl ⟨_, rfl⟩⟩
    obtain rfl := Except.ok.inj hresult
    exact ⟨books trace, by simp [returning], rfl, latency, hshown⟩

theorem stream_hit_books (start : Time) (reservation : ReservationId) (hit : CacheHit) :
    wp anyReply (streamHit gw req start reservation hit)
      (HitBooks yielding req reservation hit) := by
  have hcharged : Shows (chargeHit gw req start reservation hit >>= fun _ =>
      call (.emit (.text hit.content))) fun shown _ => ∃ latency, shown =
        [.reconciled req.apiKey.id reservation (hit.tokensIn + hit.tokensOut),
          .logged (hitRow req latency hit)] := by
    refine Shows.bind (shows_chargeHit gw req start reservation hit) ?_
    rintro _ _ ⟨latency, rfl⟩
    exact Shows.call (by simp) fun _ => ⟨latency, rfl⟩
  unfold streamHit
  rw [← bind_assoc]
  refine (wp_bind _).mpr (wp_mono hcharged fun trace r hr => ?_)
  cases r with
  | error e => exact ⟨.of_raised hr.1, .inr hr.2⟩
  | ok u =>
    obtain ⟨latency, hshown⟩ := hr.2
    refine (wp_call _ _).mpr ⟨trivial, fun reply _ => ⟨fun result hresult => ?_, .inl ?_⟩⟩
    · have hsame := (yielding.after hr.1).mp hresult
      simp only [yielding, books_yield, List.mem_singleton, BookEntry.yielded.injEq] at hsame
      subst hsame
      exact ⟨books trace, by simp [yielding], rfl, latency, hshown⟩
    · exact ⟨hitResult req hit, (yielding.after hr.1).mpr (by simp [yielding])⟩

/-- The candidates and the loop over them, after a reservation and a miss. -/
theorem route_books {reservation : ReservationId} {lead : List Event} (hlead : Unyielded lead)
    (hnone : books lead = [.reserved reservation]) {loop : List (Backend × Client) → Action α}
    (hloop : ∀ remaining,
      wp anyReply (loop remaining) (WalkBooks D gw req reservation remaining)) :
    wp anyReply (route req loop) fun trace r => RequestBooks D gw req (lead ++ trace) r := by
  have hoffer : Shows (call (.candidates req.model)) fun shown remaining =>
      shown = [.offered req.model remaining] := Shows.call (by simp) fun _ => rfl
  refine hoffer.wp_bind (fun trace e hraised hquiet =>
    .of_raised (hraised.right _) (hlead.append hquiet)) ?_
  intro offer remaining hoffered hquiet
  have hlater := hlead.append hquiet
  have hshown : books (lead ++ offer) =
      [.reserved reservation, .offered req.model remaining] := by
    rw [books_append, hnone, hoffered]
    rfl
  have hunfound : Unfound (lead ++ offer) := by
    intro hit
    rw [hshown]
    simp
  split
  · refine (wp_throw _ _).mpr ?_
    rw [List.append_nil]
    exact .of_excused (.inl hunfound) (.of_raised hlater)
  · refine wp_mono (hloop remaining) fun trace r hwalk => ?_
    rw [← List.append_assoc]
    refine .of_excused (hunfound.excused_append hwalk.1)
      (hwalk.2.after hlater fun shown result haccount => ?_)
    rw [hshown]
    exact .live haccount

/-- Both handlers. -/
theorem pipeline_books {charged : Time → ReservationId → CacheHit → Action α}
    {loop : Time → ReservationId → List (Backend × Client) → Action α}
    (hcharged : ∀ start reservation hit,
      wp anyReply (charged start reservation hit) (HitBooks D req reservation hit))
    (hloop : ∀ start reservation remaining,
      wp anyReply (loop start reservation remaining) (WalkBooks D gw req reservation remaining)) :
    wp anyReply (pipeline gw req charged loop) (RequestBooks D gw req) := by
  have hclock : Blank (call .perfCounter) := Shows.call (by simp) fun _ => rfl
  have hreserve : Shows (call (.reserve req.apiKey.id (estimateTokens req.messages)
      req.apiKey.tokenBudget req.apiKey.windowSeconds)) fun shown reserved =>
      shown = (reserved.map BookEntry.reserved).toList :=
    Shows.call (by simp) fun reserved => by cases reserved <;> rfl
  refine hclock.wp_bind (fun _ _ => .of_raised) fun clock start hstart hquiet => ?_
  refine hreserve.wp_bind (fun trace e hraised hquiet' =>
    .of_raised (hraised.right clock) (hquiet.append hquiet')) ?_
  intro reserve reserved hreserved hquiet'
  have hbefore := hquiet.append hquiet'
  cases reserved with
  | none =>
    refine (wp_throw _ _).mpr ?_
    rw [List.append_nil]
    refine .of_excused (.inl fun hit => ?_) (.of_raised hbefore)
    simp [hstart, hreserved]
  | some reservation =>
    have hopened : books (clock ++ reserve) = [.reserved reservation] := by
      simp [hstart, hreserved]
    refine (shows_lookup gw req).wp_bind (fun trace e hraised hquiet'' => ?_) ?_
    · rw [← List.append_assoc]
      exact .of_raised (hraised.right _) (hbefore.append hquiet'')
    · intro look hit hlook hquiet''
      cases hit with
      | some hit =>
        refine wp_mono (hcharged start reservation hit) fun trace r hr => ?_
        obtain ⟨hkept, hanswered⟩ := hr
        rw [← List.append_assoc, ← List.append_assoc]
        have hlead := hbefore.append hquiet''
        refine ⟨hkept.after hlead fun shown result haccount => ?_, fun _ _ => ?_⟩
        · obtain ⟨rfl, latency, rfl⟩ := haccount
          rw [books_append, hopened, hlook]
          exact .hit reservation hit latency
        · obtain ⟨result, hresult⟩ | hraised := hanswered
          · exact .inl ⟨result, (D.after hlead).mpr hresult⟩
          · exact .inr (hraised.right _)
      | none =>
        have hnone : books (clock ++ reserve ++ look) = [.reserved reservation] := by
          rw [books_append, hopened, hlook]
          rfl
        refine wp_mono (route_books (hbefore.append hquiet'') hnone (hloop start reservation))
          fun trace r hr => ?_
        rw [← List.append_assoc, ← List.append_assoc]
        exact hr

/-- The books of `handle_complete`. -/
theorem handleComplete_books :
    wp anyReply (handleComplete gw req) (RequestBooks returning gw req) :=
  pipeline_books complete_hit_books fun start _ remaining =>
    walk_books (body_complete_books start) (fun err => exhausted_books start
      (blank_incr gw _ _) err) remaining none

/-- The books of `handle_stream`. -/
theorem handleStream_books :
    wp anyReply (handleStream gw req) (RequestBooks yielding gw req) := by
  refine pipeline_books stream_hit_books fun start _ remaining =>
    walk_books (body_stream_books start) (fun err => ?_) remaining none
  have hnothing : Blank (return () : Action Unit) := Shows.pure rfl
  simpa using exhausted_books start hnothing err

end Handlers

end InferenceGateway.Orchestrator
