import InferenceGateway.Library.Coupling
import InferenceGateway.Orchestrator.Bookkeeping
import InferenceGateway.Orchestrator.Evaluation
import InferenceGateway.Orchestrator.Traces

/-!
# The two handlers side by side

`handle_complete` and `handle_stream` are run from the same state, against clients whose
calls and streams correspond. They end alike and leave the same state behind.
-/
namespace InferenceGateway.Orchestrator
open Library Library.Action

variable {State : Type}

/-! ## Clients that can be called and streamed from -/

/-- How a stream goes: the reply to opening it, and those to waiting for each event. -/
structure StreamRun where
  opened : Except Raised (List StreamEvent)
  waits : List (Except Raised Unit)

/-- What the clients do, from the state of everything outside the handler. -/
structure Clients (State : Type) where
  complete : State → Client → List ChatMessage → String → Except Raised Completion × State
  stream : State → Client → List ChatMessage → String → StreamRun × State

/-- The open stream of a request, and what the consumer has received. -/
structure Connection where
  waits : List (Except Raised Unit) := []
  received : List Yielded := []

/-- The operations on clients, the consumer and the metrics. -/
def Op.outward : Op → Bool
  | .complete .. | .stream .. | .anext _ | .emit _ | .incr .. | .observe .. => true
  | _ => false

/-- The consumer reads on to the end, and the metrics are counted elsewhere. -/
def Clients.serve (clients : Clients State) (main : Program.Handler Op Reply State) :
    Program.Handler Op Reply (Connection × State) := fun (conn, s) op =>
  match op with
  | .complete client messages model =>
    let (r, s) := clients.complete s client messages model
    (r, (conn, s))
  | .stream client messages model =>
    let (run, s) := clients.stream s client messages model
    (run.opened, ({ conn with waits := run.waits }, s))
  | .anext _ =>
    match conn.waits with
    | [] => (.ok (), (conn, s))
    | r :: waits => (r, ({ conn with waits }, s))
  | .emit event => (.ok (), ({ conn with received := conn.received ++ [event] }, s))
  | .incr .. | .observe .. => (.ok (), (conn, s))
  | op => ((main s op).1, (conn, (main s op).2))

/-- The clients, the consumer and the metrics next to everything else. -/
def Clients.beside (clients : Clients State) (main : Program.Handler Op Reply State) :
    Program.Handler Op Reply (Connection × State) :=
  Program.beside Op.outward (clients.serve main) main

/-- A call corresponds to a stream: it returns what the stream yields, or raises where the
stream raises before any text. `E` says which exceptions correspond. -/
inductive Corresponds (E : Raised → Raised → Prop) : Except Raised Completion → StreamRun → Prop
  | answers {chunks : List String} {tokensIn tokensOut : Int} {waits : List (Except Raised Unit)}
      (hwaits : ∀ r ∈ waits, r = .ok ()) :
      Corresponds E (.ok ⟨String.join chunks, tokensIn, tokensOut⟩)
        ⟨.ok (chunks.map .text ++ [.usage ⟨tokensIn, tokensOut, some "stop"⟩]), waits⟩
  | refuses {e e' : Raised} {waits : List (Except Raised Unit)} (he : E e e') :
      Corresponds E (.error e) ⟨.error e', waits⟩
  | breaks {e e' : Raised} {before after : List StreamEvent} {waits : List (Except Raised Unit)}
      (hbefore : ∀ event ∈ before, ∃ u, event = .usage u) (he : E e e') :
      Corresponds E (.error e) ⟨.ok (before ++ after),
        before.map (fun _ => .ok ()) ++ .error e' :: waits⟩

/-! ## Ending alike -/

/-- The same exception, up to corresponding exceptions of the clients. A choice of the
policy outside the candidates leaves both handlers with a `RuntimeError`, whose text names
the kind of the handler. -/
inductive SameException (E : Raised → Raised → Prop) : Raised → Raised → Prop
  | same (e : Raised) : SameException E e e
  | uncaught {e e' : Raised} (he : E e e') (h : e.isException = false) : SameException E e e'
  | unavailable {err err' : Option Raised} (h : Option.Rel E err err') :
      SameException E (.allBackendsUnavailable err) (.allBackendsUnavailable err')
  | stopped : SameException E (stopIteration false) (stopIteration true)

/-- The texts received make up the content of the result, which is received last. -/
def Delivers (received : List Yielded) (result : CompletionResult) : Prop :=
  ∃ texts : List String, received = texts.map .text ++ [.result result] ∧
    String.join texts = result.content

/-- The call and the stream end in the same exception or the same result, and leave the
same state. -/
def EndAlike (E : Raised → Raised → Prop) :
    Except Raised CompletionResult × (Connection × State) →
    Except Raised Unit × (Connection × State) → Prop :=
  Joint (fun result s _ t => Delivers t.1.received result ∧ t.2 = s.2)
    fun e s e' t => SameException E e e' ∧ t.2 = s.2

section Coupling
variable {clients : Clients State} {main : Program.Handler Op Reply State}
  {E : Raised → Raised → Prop} {α β : Type}

/-- The states are the same, and of the connection of the stream `R` holds. -/
def Level (R : Connection → Prop) (s t : Connection × State) : Prop := t.2 = s.2 ∧ R t.1

/-- Nothing has been received. -/
abbrev Unheard (conn : Connection) : Prop := conn.received = []

abbrev Paired (clients : Clients State) (main : Program.Handler Op Reply State)
    (E : Raised → Raised → Prop) (I : Connection × State → Connection × State → Prop)
    (x : Action α) (y : Action β)
    (A : α → Connection × State → β → Connection × State → Prop) : Prop :=
  Coupled (clients.beside main) (clients.beside main) I x y A
    fun e s e' t => SameException E e e' ∧ t.2 = s.2

variable {R : Connection → Prop}

theorem Paired.throw {e e' : Raised} {A : α → Connection × State → β → Connection × State → Prop}
    (h : SameException E e e') :
    Paired clients main E (Level R) (throw e : Action α) (throw e' : Action β) A :=
  Coupled.throw fun _ _ hst => ⟨h, hst.1⟩

/-- What avoids clients, consumer and metrics runs alike on both sides. -/
theorem Paired.bind_same {α' β' : Type} {x : Action α} {f : α → Action α'} {g : α → Action β'}
    {B : α' → Connection × State → β' → Connection × State → Prop}
    (hx : Program.Avoids Op.outward x.run)
    (hf : ∀ a, Paired clients main E (Level R) (f a) (g a) B) :
    Paired clients main E (Level R) (x >>= f) (x >>= g) B := by
  intro (conn, s) (conn', s') ⟨hs, hR⟩
  obtain rfl : s' = s := hs
  have hexec : ∀ conn, x.exec (clients.beside main) (conn, s') =
      ((x.exec main s').1, (conn, (x.exec main s').2)) := fun conn => (hx.exec_beside conn s').1
  rw [exec_bind, exec_bind, hexec, hexec]
  cases hend : x.exec main s' with
  | mk r s' =>
    cases r with
    | ok a => exact hf a _ _ ⟨rfl, hR⟩
    | error e => exact .raises ⟨.same e, rfl⟩

theorem Paired.call_same {op : Op} (hop : op.outward = false) {α' β' : Type}
    {f : Ret op → Action α'}
    {g : Ret op → Action β'} {B : α' → Connection × State → β' → Connection × State → Prop}
    (hf : ∀ a, Paired clients main E (Level R) (f a) (g a) B) :
    Paired clients main E (Level R) (call op >>= f) (call op >>= g) B :=
  .bind_same ⟨hop, fun _ _ => trivial⟩ hf

/-- An operation on the metrics, which only one side may perform. -/
theorem Paired.left {α' : Type} {x : Action Unit} {f : Unit → Action α'} {y : Action β}
    {I : Connection × State → Connection × State → Prop}
    {B : α' → Connection × State → β → Connection × State → Prop}
    (hx : ∀ s, x.exec (clients.beside main) s = (.ok (), s))
    (hf : Paired clients main E I (f ()) y B) :
    Paired clients main E I (x >>= f) y B := by
  intro s t hst
  rw [exec_bind_ok (hx s)]
  exact hf s t hst

theorem Paired.right {β' : Type} {x : Action α} {y : Action Unit} {g : Unit → Action β'}
    {I : Connection × State → Connection × State → Prop}
    {B : α → Connection × State → β' → Connection × State → Prop}
    (hy : ∀ s, y.exec (clients.beside main) s = (.ok (), s))
    (hg : Paired clients main E I x (g ()) B) :
    Paired clients main E I x (y >>= g) B := by
  intro s t hst
  rw [exec_bind_ok (hy t)]
  exact hg s t hst

theorem exec_incr {gw : RequestOrchestrator} {metric : String} {labels : List (String × String)}
    (s : Connection × State) :
    (incr gw metric labels).exec (clients.beside main) s = (.ok (), s) := by
  unfold incr
  split <;> rfl

theorem exec_observe {gw : RequestOrchestrator} {metric : String} {value : ℚ}
    {labels : List (String × String)} (s : Connection × State) :
    (observe gw metric value labels).exec (clients.beside main) s = (.ok (), s) := by
  unfold observe
  split <;> rfl

/-! ## Parts that avoid clients, consumer and metrics -/

/-- The operations on everything else. -/
abbrev inward : Contract := ⟨fun op => op.outward = false, fun _ _ => True⟩

theorem avoids_of_straight {S : Op → Prop} {x : Action α} (h : Straight inward S x) :
    Program.Avoids Op.outward x.run :=
  wp_mono h fun _ _ _ => trivial

variable {gw : RequestOrchestrator} {req : ChatRequest}

theorem avoids_lookup : Program.Avoids Op.outward (lookup gw req).run := by
  refine avoids_of_straight (S := fun _ => True) ?_
  unfold lookup cacheGet
  split
  · exact .pure _
  · refine .perform rfl trivial fun hit => ?_
    cases hit with
    | some hit => exact .pure _
    | none =>
      refine .perform rfl trivial fun embedding => ?_
      cases embedding with
      | none => exact .pure _
      | some embedding => exact .perform rfl trivial fun _ => .pure _

theorem straight_store (content : String) (tokensIn tokensOut : Int) :
    Straight inward (fun _ => True) (store gw req content tokensIn tokensOut) := by
  unfold store cachePut
  split
  · exact .pure _
  · refine .perform rfl trivial fun _ => .perform rfl trivial fun embedding => ?_
    cases embedding with
    | none => exact .pure _
    | some embedding => exact .call rfl trivial

theorem avoids_settle (start : Time) (reservation : Resilience.RateLimit.ReservationId)
    (backend : Backend) (content : String) (tokensIn tokensOut : Int)
    (finishReason : Option String) :
    Program.Avoids Op.outward
      (settle gw req start reservation backend content tokensIn tokensOut finishReason).run := by
  refine avoids_of_straight (S := fun _ => True) ?_
  refine .perform rfl trivial fun _ => .perform rfl trivial fun _ => ?_
  refine .bind (.perform rfl trivial fun _ => .call rfl trivial) fun _ => ?_
  refine .bind (straight_store ..) fun _ => ?_
  exact .perform rfl trivial fun _ => .perform rfl trivial fun _ => .pure _

/-! ## Calls -/

/-- What is known after a call and a stream that correspond. -/
inductive CallOutcome (E : Raised → Raised → Prop) :
    Except Raised Completion → Consumed × Except Raised Unit → List Yielded → Prop
  | answered {c : Consumed} {tokensIn tokensOut : Int}
      (husage : c.usage = some ⟨tokensIn, tokensOut, some "stop"⟩) :
      CallOutcome E (.ok ⟨String.join c.accumulated, tokensIn, tokensOut⟩) (c, .ok ())
        (c.accumulated.map .text)
  | failed {c : Consumed} {e e' : Raised} (he : E e e') (hquiet : c.anyYielded = false) :
      CallOutcome E (.error e) (c, .error e') []

theorem exec_anext_ok (clients : Clients State) (main : Program.Handler Op Reply State)
    {waits : List (Except Raised Unit)} (hwaits : ∀ r ∈ waits, r = .ok ())
    (client : Client) (received : List Yielded) (s : State) :
    ∃ waits', (∀ r ∈ waits', r = .ok ()) ∧
      clients.beside main (⟨waits, received⟩, s) (.anext client) =
        (.ok (), (⟨waits', received⟩, s)) := by
  cases waits with
  | nil => exact ⟨[], hwaits, rfl⟩
  | cons r waits =>
    obtain ⟨rfl, hrest⟩ := List.forall_mem_cons.mp hwaits
    exact ⟨waits, hrest, rfl⟩

/-- A stream that yields some texts and then its usage. -/
theorem exec_consume_answer (clients : Clients State) (main : Program.Handler Op Reply State)
    {waits : List (Except Raised Unit)} (hwaits : ∀ r ∈ waits, r = .ok ())
    (client : Client) (chunks : List String) (u : Usage) (c : Consumed) (received : List Yielded)
    (s : State) : ∃ waits' anyYielded,
      (consume client (chunks.map .text ++ [.usage u]) c).exec (clients.beside main)
        (⟨waits, received⟩, s) =
      (.ok (⟨c.accumulated ++ chunks, some u, anyYielded⟩, .ok ()),
        (⟨waits', received ++ chunks.map .text⟩, s)) := by
  induction chunks generalizing waits c received with
  | nil =>
    obtain ⟨waits₁, hwaits₁, hfirst⟩ := exec_anext_ok clients main
      hwaits client received s
    obtain ⟨waits₂, -, hlast⟩ := exec_anext_ok clients main
      hwaits₁ client received s
    refine ⟨waits₂, c.anyYielded, ?_⟩
    simp only [List.map_nil, List.nil_append, List.append_nil, consume]
    rw [exec_bind_ok (by rw [exec_attempt, exec_call, hfirst])]
    dsimp only
    rw [exec_bind_ok (by rw [exec_attempt, exec_call, hlast])]
    rfl
  | cons chunk chunks ih =>
    obtain ⟨waits₁, hwaits₁, hfirst⟩ := exec_anext_ok clients main
      hwaits client received s
    obtain ⟨waits₂, anyYielded, hrest⟩ := ih hwaits₁ { c with
      accumulated := c.accumulated ++ [chunk], anyYielded := true } (received ++ [.text chunk])
    refine ⟨waits₂, anyYielded, ?_⟩
    simp only [List.map_cons, List.cons_append, consume]
    rw [exec_bind_ok (by rw [exec_attempt, exec_call, hfirst])]
    dsimp only
    have hemit : (attempt (call (.emit (.text chunk)))).exec (clients.beside main)
        (⟨waits₁, received⟩, s) = (.ok (.ok ()), (⟨waits₁, received ++ [.text chunk]⟩, s)) := rfl
    rw [exec_bind_ok hemit]
    simpa using hrest

/-- A stream that raises before any text. -/
theorem exec_consume_break (clients : Clients State) (main : Program.Handler Op Reply State)
    (client : Client) {before : List StreamEvent}
    (hbefore : ∀ event ∈ before, ∃ u, event = .usage u) (after : List StreamEvent) (e : Raised)
    (waits : List (Except Raised Unit)) (c : Consumed) (received : List Yielded) (s : State) :
    ∃ c', c'.anyYielded = c.anyYielded ∧
      (consume client (before ++ after) c).exec (clients.beside main)
        (⟨before.map (fun _ => .ok ()) ++ .error e :: waits, received⟩, s) =
      (.ok (c', .error e), (⟨waits, received⟩, s)) := by
  induction before generalizing c with
  | nil =>
    refine ⟨c, rfl, ?_⟩
    cases after <;> rfl
  | cons event before ih =>
    obtain ⟨⟨u, rfl⟩, hothers⟩ := List.forall_mem_cons.mp hbefore
    obtain ⟨c', hquiet, hrest⟩ := ih hothers { c with usage := some u }
    exact ⟨c', hquiet, hrest⟩

/-- Reading a stream once it has been opened. -/
def readOpened (client : Client) : Except Raised (List StreamEvent) →
    Action (Consumed × Except Raised Unit)
  | .error e => pure ({}, .error e)
  | .ok events => consume client events {}

/-- The outcome of a stream that corresponds to a call. -/
theorem exec_stream_outcome (clients : Clients State) (main : Program.Handler Op Reply State)
    {r : Except Raised Completion} {run : StreamRun}
    (h : Corresponds E r run) (client : Client) {conn : Connection} (hunheard : Unheard conn)
    (s : State) : ∃ p conn', CallOutcome E r p conn'.received ∧
      (readOpened client run.opened).exec (clients.beside main)
        ({ conn with waits := run.waits }, s) = (.ok p, (conn', s)) := by
  obtain ⟨waits, received⟩ := conn
  obtain rfl : received = [] := hunheard
  cases h with
  | @answers chunks tokensIn tokensOut waits hwaits =>
    obtain ⟨waits', anyYielded, hexec⟩ := exec_consume_answer clients main
      hwaits client chunks ⟨tokensIn, tokensOut, some "stop"⟩ {} [] s
    exact ⟨_, _, .answered (c := ⟨chunks, some ⟨tokensIn, tokensOut, some "stop"⟩, anyYielded⟩) rfl,
      hexec⟩
  | @refuses e e' waits he => exact ⟨_, ⟨waits, []⟩, .failed he rfl, rfl⟩
  | @breaks e e' before after waits hbefore he =>
    obtain ⟨c, hquiet, hexec⟩ := exec_consume_break clients main client
      hbefore after e' waits {} [] s
    exact ⟨_, ⟨waits, []⟩, .failed he hquiet, hexec⟩

/-- The assumptions: calls and streams correspond, and leaving a semaphore does not raise. -/
structure Comparable (clients : Clients State) (main : Program.Handler Op Reply State)
    (E : Raised → Raised → Prop) : Prop where
  corresponds : ∀ s client messages model,
    Corresponds E (clients.complete s client messages model).1
      (clients.stream s client messages model).1
  alike : ∀ s client messages model,
    (clients.stream s client messages model).2 = (clients.complete s client messages model).2
  release : ∀ s id, (main s (.release id)).1 = .ok ()
  refl : ∀ e, E e e
  kind : ∀ e e', E e e' → e.isException = e'.isException

/-- Entering and leaving a semaphore without exceptions. -/
theorem exec_withSemaphore {serve : Program.Handler Op Reply State} {id : Uuid} {body : Action α}
    {r : Except Raised α} {s s₁ s₂ s₃ : State} (hacquire : serve s (.acquire id) = (.ok (), s₁))
    (hbody : body.exec serve s₁ = (r, s₂)) (hrelease : serve s₂ (.release id) = (.ok (), s₃)) :
    (withSemaphore id body).exec serve s = (r, s₃) := by
  unfold withSemaphore
  rw [exec_bind_ok (by rw [exec_call, hacquire]), exec_bind_ok (by rw [exec_attempt, hbody]),
    exec_bind_ok (by rw [exec_call, hrelease])]
  cases r <;> rfl

theorem exec_streamFrom {serve : Program.Handler Op Reply State} {backend : Backend}
    {client : Client} {opened : Except Raised (List StreamEvent)}
    {p : Consumed × Except Raised Unit}
    {s s₁ s₂ s₃ s₄ : State} (hacquire : serve s (.acquire backend.id) = (.ok (), s₁))
    (hopen : serve s₁ (.stream client req.messages backend.model) = (opened, s₂))
    (hread : (readOpened client opened).exec serve s₂ = (.ok p, s₃))
    (hrelease : serve s₃ (.release backend.id) = (.ok (), s₄)) :
    (streamFrom req backend client).exec serve s = (.ok p, s₄) := by
  unfold streamFrom
  rw [exec_bind_ok (by rw [exec_attempt, exec_call, hacquire])]
  refine (exec_bind_ok (a := p) (t := s₃) ?_).trans ?_
  · rw [exec_bind_ok (by rw [exec_attempt, exec_call, hopen])]
    cases opened <;> exact hread
  · rw [exec_bind_ok (by rw [exec_attempt, exec_call, hrelease])]
    rfl

theorem paired_call (h : Comparable clients main E) (backend : Backend) (client : Client) :
    Paired clients main E (Level Unheard)
      (attempt (withSemaphore backend.id (call (.complete client req.messages backend.model))))
      (streamFrom req backend client)
      fun r s p t => t.2 = s.2 ∧ CallOutcome E r p t.1.received := by
  intro (conn, s) (conn', s') ⟨hs, hunheard⟩
  obtain rfl : s' = s := hs
  rw [exec_attempt]
  have hacquire : ∀ conn, clients.beside main (conn, s') (.acquire backend.id) =
      ((main s' (.acquire backend.id)).1, (conn, (main s' (.acquire backend.id)).2)) := fun _ => rfl
  cases hentered : main s' (.acquire backend.id) with
  | mk entered s₁ =>
    simp only [hentered] at hacquire
    cases entered with
    | error e =>
      have hcall : (withSemaphore backend.id
          (call (.complete client req.messages backend.model))).exec
            (clients.beside main) (conn, s') = (.error e, (conn, s₁)) :=
        exec_bind_error (hacquire conn)
      have hstream : (streamFrom req backend client).exec (clients.beside main) (conn', s') =
          (.ok ({}, .error e), (conn', s₁)) := by
        unfold streamFrom
        rw [exec_bind_ok (by rw [exec_attempt, exec_call, hacquire])]
        rfl
      have houtcome : CallOutcome E (.error e) ({}, .error e) [] := .failed (h.refl e) rfl
      rw [hcall, hstream]
      exact .returns ⟨rfl, hunheard ▸ houtcome⟩
    | ok u =>
      have hleave : ∀ conn s, clients.beside main (conn, s) (.release backend.id) =
          (.ok (), (conn, (main s (.release backend.id)).2)) := fun conn s =>
        Prod.ext (h.release s backend.id) rfl
      obtain ⟨p, conn₂, houtcome, hread⟩ := exec_stream_outcome clients main
        (h.corresponds s₁ client req.messages backend.model) client hunheard
        (clients.stream s₁ client req.messages backend.model).2
      rw [exec_withSemaphore (hacquire conn) rfl (hleave _ _),
        exec_streamFrom (hacquire conn') rfl hread (hleave _ _), h.alike]
      exact .returns ⟨rfl, houtcome⟩

/-! ## Passes and the loop -/

/-- Both go on with corresponding errors, or both are done. -/
def PassAlike (E : Raised → Raised → Prop) (pass : Pass CompletionResult) (s : Connection × State)
    (pass' : Pass Unit) (t : Connection × State) : Prop :=
  t.2 = s.2 ∧ match pass, pass' with
    | .next err, .next err' => Option.Rel E err err' ∧ Unheard t.1
    | .done result, .done () => Delivers t.1.received result
    | _, _ => False

theorem paired_failed (h : Comparable clients main E) {e e' : Raised} (he : E e e')
    (backend : Backend) {c : Consumed} (hquiet : c.anyYielded = false) :
    Paired clients main E (Level Unheard)
      (if e.isException then do
        call (.record backend.id false)
        incr gw "gateway_backend_calls_total" [("backend", backend.name), ("outcome", "error")]
        return .next (some e)
      else throw e)
      (if e'.isException then do
        call (.record backend.id false)
        if c.anyYielded then throw (.allBackendsUnavailable (some e'))
        else return .next (some e')
      else throw e') (PassAlike E) := by
  rw [← h.kind e e' he, hquiet]
  cases hkind : e.isException with
  | false => exact .throw (.uncaught he hkind)
  | true =>
    refine .call_same rfl fun _ => .left exec_incr ?_
    exact Coupled.pure fun s t hst => ⟨hst.1, .some he, hst.2⟩

theorem paired_body (h : Comparable clients main E) (start : Time)
    (reservation : Resilience.RateLimit.ReservationId) (backend : Backend) (client : Client) :
    Paired clients main E (Level Unheard) (completeWith gw req start reservation backend client)
      (streamWith gw req start reservation backend client) (PassAlike E) := by
  refine Coupled.bind (paired_call h backend client) fun r p s t ⟨hs, houtcome⟩ => ?_
  generalize hreceived : t.1.received = received at houtcome
  cases houtcome with
  | failed he hquiet => exact paired_failed h he backend hquiet s t ⟨hs, hreceived⟩
  | @answered c tokensIn tokensOut husage =>
    dsimp only
    rw [husage]
    suffices hrest : Paired clients main E
        (Level fun conn => conn.received = c.accumulated.map .text) _ _
        (PassAlike E) from hrest s t ⟨hs, hreceived⟩
    refine .bind_same (avoids_settle ..) fun latency => ?_
    refine .left exec_incr (.left exec_observe (.right exec_incr ?_))
    intro s t hst
    exact .returns ⟨hst.1, c.accumulated, congrArg (· ++ _) hst.2, rfl⟩

theorem paired_walk
    {body : Backend → Client → Action (Pass CompletionResult)}
    {body' : Backend → Client → Action (Pass Unit)}
    {exhausted : Option Raised → Action CompletionResult} {exhausted' : Option Raised → Action Unit}
    {A : CompletionResult → Connection × State → Unit → Connection × State → Prop}
    (hA : ∀ result s t, t.2 = s.2 → Delivers t.1.received result → A result s () t)
    (hbody : ∀ backend client, Paired clients main E (Level Unheard) (body backend client)
      (body' backend client) (PassAlike E))
    (hexhausted : ∀ err err', Option.Rel E err err' →
      Paired clients main E (Level Unheard) (exhausted err) (exhausted' err') A)
    (remaining : List (Backend × Client)) {err err' : Option Raised}
    (herr : Option.Rel E err err') :
    Paired clients main E (Level Unheard)
      (walk req (stopIteration false) body exhausted remaining err)
      (walk req (stopIteration true) body' exhausted' remaining err') A := by
  rw [walk_eq_walkWithin _ _ _ _ le_rfl, walk_eq_walkWithin _ _ _ _ le_rfl]
  generalize remaining.length = fuel
  induction fuel generalizing remaining err err' with
  | zero => exact hexhausted err err' herr
  | succ fuel ih =>
    unfold walkWithin
    split
    · exact hexhausted err err' herr
    · refine .call_same rfl fun chosen => ?_
      cases pairOf chosen.id remaining with
      | none => exact .throw .stopped
      | some pair =>
        refine .call_same rfl fun admitted => ?_
        cases admitted with
        | false => exact ih _ herr
        | true =>
          refine Coupled.bind (hbody pair.1 pair.2) fun pass pass' s t h => ?_
          obtain ⟨hs, hpass⟩ := h
          cases pass with
          | next err =>
            cases pass' with
            | next err' => exact ih _ hpass.1 s t ⟨hs, hpass.2⟩
            | done u => exact hpass.elim
          | done result =>
            cases pass' with
            | next err' => exact hpass.elim
            | done u => exact .returns (hA result s t hs hpass)

/-! ## The handlers -/

theorem paired_hit (start : Time) (reservation : Resilience.RateLimit.ReservationId)
    (hit : CacheHit) :
    Paired clients main E (Level Unheard) (completeHit gw req start reservation hit)
      (streamHit gw req start reservation hit) fun result s _ t =>
        Delivers t.1.received result ∧ t.2 = s.2 := by
  unfold completeHit streamHit chargeHit
  simp only [bind_assoc]
  refine .call_same rfl fun _ => .call_same rfl fun _ => .call_same rfl fun _ => ?_
  refine .left exec_incr (.right exec_incr ?_)
  intro s (conn, t) ⟨hs, hunheard⟩
  have hreceived : conn.received ++ [Yielded.text hit.content] ++ [.result (hitResult req hit)] =
      [hit.content].map .text ++ [.result (hitResult req hit)] := by
    rw [show conn.received = [] from hunheard]
    rfl
  exact .returns ⟨⟨[hit.content], hreceived, by simp [String.join, hitResult]⟩, hs⟩

theorem paired_exhausted (start : Time) {err err' : Option Raised} (herr : Option.Rel E err err')
    {A : CompletionResult → Connection × State → Unit → Connection × State → Prop} :
    Paired clients main E (Level Unheard)
      (do
        logUnavailable req start
        incr gw "gateway_failover_total" []
        throw (.allBackendsUnavailable err))
      (do
        logUnavailable req start
        throw (.allBackendsUnavailable err')) A := by
  have hlog : Program.Avoids Op.outward (logUnavailable req start).run :=
    avoids_of_straight (S := fun _ => True) (.perform rfl trivial fun _ => .call rfl trivial)
  exact .bind_same hlog fun _ => .left exec_incr (.throw (.unavailable herr))

theorem paired_loop (h : Comparable clients main E) (start : Time)
    (reservation : Resilience.RateLimit.ReservationId) (remaining : List (Backend × Client)) :
    Paired clients main E (Level Unheard) (completeLoop gw req start reservation remaining)
      (streamLoop gw req start reservation remaining) fun result s _ t =>
        Delivers t.1.received result ∧ t.2 = s.2 :=
  paired_walk (fun _ _ _ hs hdelivers => ⟨hdelivers, hs⟩) (paired_body h start reservation)
    (fun _ _ herr => paired_exhausted start herr) remaining .none

theorem paired_handlers (h : Comparable clients main E) :
    Paired clients main E (Level Unheard) (handleComplete gw req) (handleStream gw req)
      fun result s _ t => Delivers t.1.received result ∧ t.2 = s.2 := by
  rw [handleComplete_eq, handleStream_eq]
  refine .call_same rfl fun start => .call_same rfl fun reserved => ?_
  cases reserved with
  | none => exact .throw (.same _)
  | some reservation =>
    refine .bind_same avoids_lookup fun hit => ?_
    cases hit with
    | some hit => exact paired_hit start reservation hit
    | none =>
      refine .call_same rfl fun remaining => ?_
      split
      · exact .throw (.same _)
      · exact paired_loop h start reservation remaining

end Coupling

/-- From the same state, with clients whose calls and streams correspond, the two handlers
end in the same exception or the same result and leave the same state. -/
theorem handlers_agree (gw : RequestOrchestrator) (req : ChatRequest) (clients : Clients State)
    (main : Program.Handler Op Reply State) (E : Raised → Raised → Prop)
    (h : Comparable clients main E) (s : State) :
    EndAlike E ((handleComplete gw req).exec (clients.beside main) ({}, s))
      ((handleStream gw req).exec (clients.beside main) ({}, s)) :=
  paired_handlers h ({}, s) ({}, s) ⟨rfl, rfl⟩

/-- Clients of which the first one refuses and the other answers. -/
def refusingAndAnswering : Clients Nat where
  complete calls client _ _ :=
    (if client = ⟨0⟩ then .error (.failure "down") else .ok ⟨"ok", 1, 1⟩, calls + 1)
  stream calls client _ _ :=
    (if client = ⟨0⟩ then ⟨.error (.failure "down"), []⟩
      else ⟨.ok [.text "o", .text "k", .usage ⟨1, 1, some "stop"⟩], []⟩, calls + 1)

theorem handlers_agree_failover :
    let main : Program.Handler Op Reply Nat := fun calls op => (failoverAnswer op, calls)
    EndAlike Eq
      ((handleComplete ⟨true, fun _ => "digest"⟩ hiRequest).exec
        (refusingAndAnswering.beside main) ({}, 0))
      ((handleStream ⟨true, fun _ => "digest"⟩ hiRequest).exec
        (refusingAndAnswering.beside main) ({}, 0)) := by
  refine handlers_agree _ _ _ _ Eq ⟨fun calls client messages model => ?_, fun _ _ _ _ => rfl,
    fun _ _ => rfl, fun _ => rfl, fun _ _ h => congrArg _ h⟩ 0
  unfold refusingAndAnswering
  dsimp only
  split
  · exact .refuses rfl
  · exact @Corresponds.answers Eq ["o", "k"] 1 1 [] (by simp)

end InferenceGateway.Orchestrator
