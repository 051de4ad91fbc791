import InferenceGateway.Library.Straight
import InferenceGateway.Orchestrator.Rules

/-!
# The traces of a request

Everything that a run of either handler can perform, as one relation of its trace and its
result: a lead up to the cache lookup, then a cache hit, an empty registry or the failover
loop, whose passes select, ask a breaker, call and keep the books. The two handlers differ
in how they call a backend, and in what they do after the log row is written.
-/
namespace InferenceGateway.Orchestrator
open Library Library.Action

variable {α β : Type}

/-! ## What each part may perform -/

/-- The operations on the two cache tiers and the embeddings. -/
def Op.touchesCache : Op → Bool
  | .exactGet .. | .exactPut .. | .embed _ | .findSimilar .. | .insertEntry _ => true
  | _ => false

section Operations
variable (req : ChatRequest)

def LookupOp : Op → Prop
  | .exactGet .. | .embed _ | .findSimilar .. => req.bypassCache = false
  | _ => False

def StoreOp : Op → Prop
  | .exactPut .. | .embed _ | .insertEntry _ => req.bypassCache = false
  | _ => False

def SettleOp (backend : Backend) : Op → Prop
  | .perfCounter | .lpush .. | .ltrim _ | .reconcile .. => True
  | .record id ok => id = backend.id ∧ ok = true
  | .exactPut .. | .embed _ | .insertEntry _ => req.bypassCache = false
  | _ => False

def HitOp : Op → Prop
  | .perfCounter | .reconcile .. => True
  | _ => False

def ClockOp : Op → Prop
  | .perfCounter => True
  | _ => False

def FailoverMetric : Op → Prop
  | .incr metric _ => metric = "gateway_failover_total"
  | _ => False

/-- What follows the log row of an answered request. -/
def TailOp (streaming : Bool) : Op → Prop
  | .incr metric _ => metric ≠ "gateway_failover_total"
  | .observe .. => True
  | .emit _ => streaming = true
  | _ => False

def FailureOp (backend : Backend) : Op → Prop
  | .record id ok => id = backend.id ∧ ok = false
  | .incr metric _ => metric ≠ "gateway_failover_total"
  | _ => False

/-- Opening a call or a stream. -/
def Opens (client : Client) : Op → Prop
  | .complete c _ _ | .stream c _ _ => c = client
  | _ => False

/-- Waiting for more of a call that has been opened, and passing text on. -/
def ContinueOp (client : Client) : Op → Prop
  | .anext c => c = client
  | .emit event => ∃ chunk, event = .text chunk
  | _ => False

/-- The operations of a call, from entering the semaphore to leaving it. -/
def CallOp (backend : Backend) (client : Client) : Op → Prop
  | .acquire id | .release id => id = backend.id
  | .complete c _ _ | .stream c _ _ | .anext c => c = client
  | .emit event => ∃ chunk, event = .text chunk
  | _ => False

end Operations

/-! ## The parts -/

/-- A log row after straight bookkeeping. -/
inductive Logs (book : Op → Prop) (tail : List Event → Except Raised α → Prop) (status : Int) :
    List Event → Except Raised α → Prop
  | early {trace : List Event} {e : Raised} (hops : ∀ ev ∈ trace, book ev.1)
      (hended : Ended trace (.error e : Except Raised α)) : Logs book tail status trace (.error e)
  | refused {before : List Event} {row : RequestLog} {e : Raised} (hops : ∀ ev ∈ before, book ev.1)
      (hsmooth : Smooth before) (hstatus : row.status = status) :
      Logs book tail status (before ++ [⟨.insertLog row, .error e⟩]) (.error e)
  | logged {before after : List Event} {row : RequestLog} {r : Except Raised α}
      (hops : ∀ ev ∈ before, book ev.1) (hsmooth : Smooth before) (hstatus : row.status = status)
      (htail : tail after r) :
      Logs book tail status (before ++ ⟨.insertLog row, .ok ()⟩ :: after) r

/-- What happens after the log row of an answered request. A stream that ends as it should
yields its result. -/
structure Tail (streaming : Bool) (trace : List Event) (r : Except Raised α) : Prop where
  ops : ∀ ev ∈ trace, TailOp streaming ev.1
  ended : Ended trace r
  yields : streaming = true →
    ((∃ result, ⟨.emit (.result result), .ok ()⟩ ∈ trace) ↔ ∃ a, r = .ok a)

/-- The metric that may follow the log row of a request that nobody has answered. -/
structure FailoverTail (trace : List Event) (r : Except Raised α) : Prop where
  ops : ∀ ev ∈ trace, FailoverMetric ev.1
  ended : Ended trace r

/-- The `try` block around a call, and what it raises: nothing but entering the semaphore,
or a call within it. An exception of leaving the semaphore replaces that of the call. -/
inductive CallTrace (backend : Backend) (client : Client) :
    List Event → Except Raised Unit → Prop
  | blocked {e : Raised} : CallTrace backend client [⟨.acquire backend.id, .error e⟩] (.error e)
  | entered {opening : Event} {rest : List Event} {ended : Except Raised Unit}
      (hopens : Opens client opening.1) (hops : ∀ ev ∈ rest, ContinueOp client ev.1)
      (hended : Ended (opening :: rest) ended) (left : Reply (.release backend.id)) :
      CallTrace backend client
        (⟨.acquire backend.id, .ok ()⟩ :: (opening :: rest ++ [⟨.release backend.id, left⟩]))
        (left.bind fun _ => ended)

/-- Some text has been passed on. -/
def delivered (trace : List Event) : Bool := trace.any fun ev =>
  match ev.1 with
  | .emit (.text _) => true
  | _ => false

/-- What an admitted candidate comes to. -/
inductive BodyTrace (req : ChatRequest) (streaming : Bool) (backend : Backend) (client : Client) :
    List Event → Except Raised (Pass α) → Prop
  | cancelled {call : List Event} {e : Raised} (hcall : CallTrace backend client call (.error e))
      (he : e.isException = false) : BodyTrace req streaming backend client call (.error e)
  | failed {call after : List Event} {e : Raised} {r : Except Raised Unit}
      (hcall : CallTrace backend client call (.error e)) (he : e.isException = true)
      (hops : ∀ ev ∈ after, FailureOp backend ev.1) (hended : Ended after r) :
      BodyTrace req streaming backend client (call ++ after) (r.bind fun _ =>
        if delivered call then .error (.allBackendsUnavailable (some e)) else .ok (.next (some e)))
  | answered {call after : List Event} {r : Except Raised (Pass α)}
      (hcall : CallTrace backend client call (.ok ()))
      (hlogs : Logs (SettleOp req backend) (Tail streaming) 200 after r)
      (hdone : ∀ pass, r = .ok pass → ∃ a, pass = .done a) :
      BodyTrace req streaming backend client (call ++ after) r

/-- What a choice of the policy outside the candidates turns into. -/
def stopIteration : (streaming : Bool) → Raised
  | false => .failure "coroutine raised StopIteration"
  | true => .failure "async generator raised StopIteration"

/-- The failover loop over the remaining candidates. -/
inductive WalkTrace (req : ChatRequest) (streaming : Bool) :
    List (Backend × Client) → Option Raised → List Event → Except Raised α → Prop
  | exhausted {err : Option Raised} {trace : List Event} {r : Except Raised Unit}
      (hlogs : Logs ClockOp FailoverTail 503 trace r) :
      WalkTrace req streaming [] err trace (r.bind fun _ => .error (.allBackendsUnavailable err))
  | unselected {rem : List (Backend × Client)} {err : Option Raised} {e : Raised} :
      WalkTrace req streaming rem err
        [⟨.select (rem.map Prod.fst) (features req), .error e⟩] (.error e)
  | stopped {rem : List (Backend × Client)} {err : Option Raised} {chosen : Backend}
      (hpair : pairOf chosen.id rem = none) :
      WalkTrace req streaming rem err
        [⟨.select (rem.map Prod.fst) (features req), .ok chosen⟩] (.error (stopIteration streaming))
  | unasked {rem : List (Backend × Client)} {err : Option Raised} {chosen backend : Backend}
      {client : Client} {e : Raised} (hpair : pairOf chosen.id rem = some (backend, client)) :
      WalkTrace req streaming rem err [⟨.select (rem.map Prod.fst) (features req), .ok chosen⟩,
        ⟨.allow backend.id, .error e⟩] (.error e)
  | rejected {rem : List (Backend × Client)} {err : Option Raised} {chosen backend : Backend}
      {client : Client} {trace : List Event} {r : Except Raised α}
      (hpair : pairOf chosen.id rem = some (backend, client))
      (hrest : WalkTrace req streaming (without chosen.id rem) err trace r) :
      WalkTrace req streaming rem err (⟨.select (rem.map Prod.fst) (features req), .ok chosen⟩ ::
        ⟨.allow backend.id, .ok false⟩ :: trace) r
  | raised {rem : List (Backend × Client)} {err : Option Raised} {chosen backend : Backend}
      {client : Client} {trace : List Event} {e : Raised}
      (hpair : pairOf chosen.id rem = some (backend, client))
      (hbody : BodyTrace (α := α) req streaming backend client trace (.error e)) :
      WalkTrace req streaming rem err (⟨.select (rem.map Prod.fst) (features req), .ok chosen⟩ ::
        ⟨.allow backend.id, .ok true⟩ :: trace) (.error e)
  | done {rem : List (Backend × Client)} {err : Option Raised} {chosen backend : Backend}
      {client : Client} {trace : List Event} {a : α}
      (hpair : pairOf chosen.id rem = some (backend, client))
      (hbody : BodyTrace req streaming backend client trace (.ok (.done a))) :
      WalkTrace req streaming rem err (⟨.select (rem.map Prod.fst) (features req), .ok chosen⟩ ::
        ⟨.allow backend.id, .ok true⟩ :: trace) (.ok a)
  | next {rem : List (Backend × Client)} {err err' : Option Raised} {chosen backend : Backend}
      {client : Client} {trace trace' : List Event} {r : Except Raised α}
      (hpair : pairOf chosen.id rem = some (backend, client))
      (hbody : BodyTrace (α := α) req streaming backend client trace (.ok (.next err')))
      (hrest : WalkTrace req streaming (without chosen.id rem) err' trace' r) :
      WalkTrace req streaming rem err (⟨.select (rem.map Prod.fst) (features req), .ok chosen⟩ ::
        ⟨.allow backend.id, .ok true⟩ :: (trace ++ trace')) r

/-- The operations before the decision of a cache hit, of an admitted request. -/
def Lead (req : ChatRequest) (trace : List Event) : Prop :=
  ∃ start reservation look,
    trace = ⟨.perfCounter, .ok start⟩ :: ⟨.reserve req.apiKey.id (estimateTokens req.messages)
      req.apiKey.tokenBudget req.apiKey.windowSeconds, .ok (some reservation)⟩ :: look ∧
    (∀ ev ∈ look, LookupOp req ev.1) ∧ Smooth look

/-- A run of either handler. -/
inductive RequestTrace (req : ChatRequest) (streaming : Bool) :
    List Event → Except Raised α → Prop
  | unread {e : Raised} : RequestTrace req streaming [⟨.perfCounter, .error e⟩] (.error e)
  | unreserved {start : Time} {e : Raised} : RequestTrace req streaming
      [⟨.perfCounter, .ok start⟩, ⟨.reserve req.apiKey.id (estimateTokens req.messages)
        req.apiKey.tokenBudget req.apiKey.windowSeconds, .error e⟩] (.error e)
  | denied {start : Time} : RequestTrace req streaming
      [⟨.perfCounter, .ok start⟩, ⟨.reserve req.apiKey.id (estimateTokens req.messages)
        req.apiKey.tokenBudget req.apiKey.windowSeconds, .ok none⟩] (.error .rateLimitExceeded)
  | interrupted {lead look : List Event} {e : Raised} (hlead : Lead req lead)
      (hops : ∀ ev ∈ look, LookupOp req ev.1 ∨ ev.1 = .candidates req.model)
      (hended : Ended look (.error e : Except Raised α)) :
      RequestTrace req streaming (lead ++ look) (.error e)
  | hit {lead trace : List Event} {r : Except Raised α} (hlead : Lead req lead)
      (hlogs : Logs HitOp (Tail streaming) 200 trace r) :
      RequestTrace req streaming (lead ++ trace) r
  | unavailable {lead : List Event} (hlead : Lead req lead) :
      RequestTrace req streaming (lead ++ [⟨.candidates req.model, .ok []⟩])
        (.error .noBackendsAvailable)
  | walked {lead trace : List Event} {remaining : List (Backend × Client)} {r : Except Raised α}
      (hlead : Lead req lead) (hne : remaining ≠ [])
      (hwalk : WalkTrace req streaming remaining none trace r) :
      RequestTrace req streaming (lead ++ ⟨.candidates req.model, .ok remaining⟩ :: trace) r

/-! ## The parts have these traces -/

/-- A contract that only restricts the operations of the lookup and the write-back, which
stay straight under it. -/
structure Admits (C : Contract) (gw : RequestOrchestrator) (req : ChatRequest) : Prop where
  allowed : ∀ op, op.touchesCache = false → C.allowed op
  lookup : Straight C (LookupOp req) (lookup gw req)
  store : ∀ content tokensIn tokensOut,
    Straight C (StoreOp req) (store gw req content tokensIn tokensOut)

/-- The lookup and the write-back are straight where their operations are allowed; a
bypassed request leaves both out. -/
theorem Admits.of_bypass {C : Contract} {gw : RequestOrchestrator} {req : ChatRequest}
    (hallowed : ∀ op, op.touchesCache = false → C.allowed op)
    (hcache : req.bypassCache = false → ∀ op, C.allowed op) : Admits C gw req where
  allowed := hallowed
  lookup := by
    unfold Orchestrator.lookup
    split
    · exact .pure _
    · rename_i hbypass
      have hbypass : req.bypassCache = false := by simpa using hbypass
      refine Straight.perform (hcache hbypass _) hbypass fun hit => ?_
      cases hit with
      | some hit => exact .pure _
      | none =>
        refine Straight.perform (hcache hbypass _) hbypass fun embedding => ?_
        cases embedding with
        | none => exact .pure _
        | some embedding =>
          exact Straight.perform (hcache hbypass _) hbypass fun entry => .pure _
  store content tokensIn tokensOut := by
    unfold Orchestrator.store
    split
    · exact .pure _
    · rename_i hbypass
      have hbypass : req.bypassCache = false := by simpa using hbypass
      refine Straight.perform (hcache hbypass _) hbypass fun _ => ?_
      refine Straight.perform (hcache hbypass _) hbypass fun embedding => ?_
      cases embedding with
      | none => exact .pure _
      | some embedding => exact .call (hcache hbypass _) hbypass

theorem Admits.of_allowed {C : Contract} {gw : RequestOrchestrator} {req : ChatRequest}
    (hallowed : ∀ op, C.allowed op) : Admits C gw req :=
  .of_bypass (fun op _ => hallowed op) fun _ op => hallowed op

theorem Logs.ended {book : Op → Prop} {status : Int} {tail : List Event → Except Raised α → Prop}
    {trace : List Event} {r : Except Raised α} (h : Logs book tail status trace r)
    (htail : ∀ trace r, tail trace r → Ended trace r) : Ended trace r := by
  cases h with
  | early _ hended => exact hended
  | refused _ hsmooth _ => exact Ended.after hsmooth ⟨[], _, rfl, .nil⟩
  | logged _ hsmooth _ hafter => exact Ended.after hsmooth ((htail _ _ hafter).cons _)

/-- What holds of the bookkeeping, the row and the tail holds of all events. -/
theorem Logs.forall_mem {book : Op → Prop} {status : Int}
    {tail : List Event → Except Raised α → Prop} {trace : List Event} {r : Except Raised α}
    {P : Op → Prop} (h : Logs book tail status trace r) (hbook : ∀ op, book op → P op)
    (hrow : ∀ row, P (.insertLog row)) (htail : ∀ trace r, tail trace r → ∀ ev ∈ trace, P ev.1) :
    ∀ ev ∈ trace, P ev.1 := by
  cases h with
  | early hops _ => exact fun ev hev => hbook _ (hops ev hev)
  | refused hops _ _ =>
    exact List.forall_mem_append.mpr ⟨fun ev hev => hbook _ (hops ev hev),
      List.forall_mem_singleton.mpr (hrow _)⟩
  | logged hops _ _ hafter =>
    exact List.forall_mem_append.mpr ⟨fun ev hev => hbook _ (hops ev hev),
      List.forall_mem_cons.mpr ⟨hrow _, htail _ _ hafter⟩⟩

/-! ## Outside the calls -/

/-- Neither about a semaphore nor about a client. -/
def Op.outside : Op → Bool
  | .acquire _ | .release _ | .complete .. | .stream .. | .anext _ => false
  | _ => true

section Outside
variable {req : ChatRequest} {streaming : Bool} {backend : Backend} {op : Op}
  {trace : List Event} {r : Except Raised α}

theorem LookupOp.outside (h : LookupOp req op) : op.outside = true := by
  cases op <;> first | rfl | exact h.elim

theorem SettleOp.outside (h : SettleOp req backend op) : op.outside = true := by
  cases op <;> first | rfl | exact h.elim

theorem HitOp.outside (h : HitOp op) : op.outside = true := by
  cases op <;> first | rfl | exact h.elim

theorem ClockOp.outside (h : ClockOp op) : op.outside = true := by
  cases op <;> first | rfl | exact h.elim

theorem FailureOp.outside (h : FailureOp backend op) : op.outside = true := by
  cases op <;> first | rfl | exact h.elim

theorem TailOp.outside (h : TailOp streaming op) : op.outside = true := by
  cases op <;> first | rfl | exact h.elim

theorem FailoverMetric.outside (h : FailoverMetric op) : op.outside = true := by
  cases op <;> first | rfl | exact h.elim

theorem Logs.outside {book : Op → Prop} {status : Int}
    {tail : List Event → Except Raised α → Prop} (h : Logs book tail status trace r)
    (hbook : ∀ op, book op → op.outside = true)
    (htail : ∀ trace r, tail trace r → ∀ ev ∈ trace, ev.1.outside = true) :
    ∀ ev ∈ trace, ev.1.outside = true :=
  h.forall_mem (P := fun op => op.outside = true) hbook (fun _ => rfl) htail

/-- The bookkeeping of an answer. -/
theorem Logs.outside_of_settled (h : Logs (SettleOp req backend) (Tail streaming) 200 trace r) :
    ∀ ev ∈ trace, ev.1.outside = true :=
  h.outside (fun _ => SettleOp.outside) fun _ _ htail ev hev => (htail.ops ev hev).outside

/-- The bookkeeping of a cache hit. -/
theorem Logs.outside_of_hit (h : Logs HitOp (Tail streaming) 200 trace r) :
    ∀ ev ∈ trace, ev.1.outside = true :=
  h.outside (fun _ => HitOp.outside) fun _ _ htail ev hev => (htail.ops ev hev).outside

end Outside

theorem Lead.smooth {req : ChatRequest} {trace : List Event} (h : Lead req trace) :
    Smooth trace := by
  obtain ⟨start, reservation, look, rfl, -, hsmooth⟩ := h
  exact Smooth.cons _ (Smooth.cons _ hsmooth)

section Calls
variable {backend : Backend} {client : Client} {trace : List Event} {r : Except Raised Unit}

theorem CallTrace.enters (h : CallTrace backend client trace r) :
    (∃ e, trace = [⟨.acquire backend.id, .error e⟩]) ∨
      ∃ opening rest, trace = ⟨.acquire backend.id, .ok ()⟩ :: opening :: rest ∧
        Opens client opening.1 ∧
        ∀ ev ∈ rest, ContinueOp client ev.1 ∨ ev.1 = .release backend.id := by
  cases h with
  | @blocked e => exact .inl ⟨e, rfl⟩
  | @entered opening rest ended hopens hops _ left =>
    refine .inr ⟨opening, rest ++ [⟨.release backend.id, left⟩], rfl, hopens, ?_⟩
    exact List.forall_mem_append.mpr ⟨fun ev hev => .inl (hops ev hev), by simp⟩

theorem callOp_of_opens {op : Op} (h : Opens client op) : CallOp backend client op := by
  cases op <;> first | exact h | exact h.elim

theorem callOp_of_continueOp {op : Op} (h : ContinueOp client op) : CallOp backend client op := by
  cases op <;> first | exact h | exact h.elim

theorem CallTrace.ops (h : CallTrace backend client trace r) :
    ∀ ev ∈ trace, CallOp backend client ev.1 := by
  obtain ⟨e, rfl⟩ | ⟨opening, rest, rfl, hopens, hrest⟩ := h.enters
  · exact List.forall_mem_singleton.mpr rfl
  · refine List.forall_mem_cons.mpr ⟨rfl, List.forall_mem_cons.mpr ⟨callOp_of_opens hopens, ?_⟩⟩
    intro ev hev
    obtain hcontinue | hleft := hrest ev hev
    · exact callOp_of_continueOp hcontinue
    · rw [hleft]
      rfl

theorem CallTrace.raised {e : Raised} (h : CallTrace backend client trace (.error e)) :
    ∃ op, ⟨op, .error e⟩ ∈ trace := by
  generalize hr : (Except.error e : Except Raised Unit) = r at h
  cases h with
  | blocked =>
    obtain rfl := Except.error.inj hr
    exact ⟨_, List.mem_singleton_self _⟩
  | @entered opening rest ended _ _ hended left =>
    cases left with
    | error e' =>
      obtain rfl := Except.error.inj hr
      exact ⟨.release backend.id, by simp⟩
    | ok u =>
      obtain rfl : Except.error e = ended := hr
      obtain ⟨op, hop⟩ := hended.raised
      exact ⟨op, List.mem_cons_of_mem _ (List.mem_append_left _ hop)⟩

theorem CallTrace.smooth (h : CallTrace backend client trace (.ok ())) : Smooth trace := by
  generalize hr : (Except.ok () : Except Raised Unit) = r at h
  cases h with
  | blocked => exact nomatch hr
  | @entered opening rest ended _ _ hended left =>
    cases left with
    | error e' => exact nomatch hr
    | ok u =>
      obtain rfl : Except.ok () = ended := hr
      have hinner : Smooth (opening :: rest) := hended
      exact Smooth.cons _ (hinner.append (by simp [Smooth]))

end Calls

section Rules
variable {C : Contract} {book : Op → Prop} {status : Int} {x : Action α} {f : α → Action β}
  {tail : List Event → Except Raised β → Prop}

theorem Logs.before (hx : Straight C book x) (hf : ∀ a, wp C (f a) (Logs book tail status)) :
    wp C (x >>= f) (Logs book tail status) := by
  refine (wp_bind _).mpr (wp_mono hx fun trace r hr => ?_)
  obtain ⟨hops, hended⟩ := hr
  cases r with
  | error e => exact .early hops hended
  | ok a =>
    refine wp_mono (hf a) fun trace' r' hr' => ?_
    cases hr' with
    | early hops' hended' =>
      exact .early (List.forall_mem_append.mpr ⟨hops, hops'⟩) (hended'.after hended)
    | refused hops' hsmooth' hstatus =>
      rw [← List.append_assoc]
      exact .refused (List.forall_mem_append.mpr ⟨hops, hops'⟩)
        (Smooth.append hended hsmooth') hstatus
    | logged hops' hsmooth' hstatus htail =>
      rw [← List.append_assoc]
      exact .logged (List.forall_mem_append.mpr ⟨hops, hops'⟩)
        (Smooth.append hended hsmooth') hstatus htail

/-- What the tail says of the result holds of the result if it says nothing of exceptions. -/
theorem Logs.split {P : Except Raised β → Prop} {trace : List Event} {r : Except Raised β}
    (h : Logs book (fun trace r => tail trace r ∧ P r) status trace r) (hP : ∀ e, P (.error e)) :
    Logs book tail status trace r ∧ P r := by
  cases h with
  | early hops hended => exact ⟨.early hops hended, hP _⟩
  | refused hops hsmooth hstatus => exact ⟨.refused hops hsmooth hstatus, hP _⟩
  | logged hops hsmooth hstatus htail => exact ⟨.logged hops hsmooth hstatus htail.1, htail.2⟩

theorem Logs.row {row : RequestLog} {f : Unit → Action β}
    (hallowed : C.allowed (.insertLog row)) (hf : wp C (f ()) tail) :
    wp C (call (.insertLog row) >>= f) (Logs book tail row.status) := by
  have hnone : ∀ ev ∈ ([] : List Event), book ev.1 := by simp
  refine wp_call_bind hallowed (fun e _ => .refused hnone .nil rfl) fun u _ => ?_
  exact wp_mono hf fun trace r hr => .logged hnone .nil rfl hr

end Rules

section Parts
variable {C : Contract} {gw : RequestOrchestrator} {req : ChatRequest} {S : Op → Prop}

theorem straight_incr (hC : Admits C gw req) {metric : String} {labels : List (String × String)}
    (h : S (.incr metric labels)) : Straight C S (incr gw metric labels) := by
  unfold incr
  split
  · exact .call (hC.allowed _ rfl) h
  · exact .pure _

theorem straight_observe (hC : Admits C gw req) {metric : String} {value : ℚ}
    {labels : List (String × String)} (h : S (.observe metric value labels)) :
    Straight C S (observe gw metric value labels) := by
  unfold observe
  split
  · exact .call (hC.allowed _ rfl) h
  · exact .pure _

theorem logs_chargeHit (hC : Admits C gw req) (start : Time)
    (reservation : Resilience.RateLimit.ReservationId) (hit : CacheHit) {f : Unit → Action α}
    {tail : List Event → Except Raised α → Prop}
    (hf : wp C (incr gw "gateway_cache_hits_total" [("tier", hit.tier.value)] >>= f) tail) :
    wp C (chargeHit gw req start reservation hit >>= f) (Logs HitOp tail 200) := by
  simp only [chargeHit, bind_assoc]
  refine Logs.before (.call (hC.allowed _ rfl) trivial) fun _ => ?_
  refine Logs.before (.call (hC.allowed _ rfl) trivial) fun _ => ?_
  exact Logs.row (hC.allowed _ rfl) hf

theorem logs_settle (hC : Admits C gw req) (start : Time)
    (reservation : Resilience.RateLimit.ReservationId) (backend : Backend) (content : String)
    (tokensIn tokensOut : Int) (finishReason : Option String) {f : Int → Action α}
    {tail : List Event → Except Raised α → Prop} (hf : ∀ latency, wp C (f latency) tail) :
    wp C (settle gw req start reservation backend content tokensIn tokensOut finishReason >>= f)
      (Logs (SettleOp req backend) tail 200) := by
  simp only [settle, latencyRecord, bind_assoc]
  refine Logs.before (.call (hC.allowed _ rfl) trivial) fun now => ?_
  refine Logs.before (.call (hC.allowed _ rfl) ⟨rfl, rfl⟩) fun _ => ?_
  refine Logs.before (.call (hC.allowed _ rfl) trivial) fun _ => ?_
  refine Logs.before (.call (hC.allowed _ rfl) trivial) fun _ => ?_
  refine Logs.before ((hC.store _ _ _).mono fun op hop => ?_) fun _ => ?_
  · cases op <;> first | exact hop | exact hop.elim
  · refine Logs.before (.call (hC.allowed _ rfl) trivial) fun _ => ?_
    exact Logs.row (hC.allowed _ rfl) (hf _)

theorem logs_logUnavailable (hC : Admits C gw req) (start : Time) {f : Unit → Action α}
    {tail : List Event → Except Raised α → Prop} (hf : wp C (f ()) tail) :
    wp C (logUnavailable req start >>= f) (Logs ClockOp tail 503) := by
  simp only [logUnavailable, bind_assoc]
  refine Logs.before (.call (hC.allowed _ rfl) trivial) fun _ => ?_
  exact Logs.row (hC.allowed _ rfl) hf

/-! The same parts, for the set of their operations. -/

theorem straight_chargeHit (hC : Admits C gw req) (hops : ∀ op, HitOp op → S op)
    (hrow : ∀ row, S (.insertLog row))
    (hincr : ∀ labels, S (.incr "gateway_cache_hits_total" labels)) (start : Time)
    (reservation : Resilience.RateLimit.ReservationId) (hit : CacheHit) :
    Straight C S (chargeHit gw req start reservation hit) := by
  refine Straight.perform (hC.allowed _ rfl) (hops _ trivial) fun _ => ?_
  refine Straight.perform (hC.allowed _ rfl) (hops _ trivial) fun _ => ?_
  exact Straight.perform (hC.allowed _ rfl) (hrow _) fun _ => straight_incr hC (hincr _)

theorem straight_settle (hC : Admits C gw req) {backend : Backend}
    (hops : ∀ op, SettleOp req backend op → S op) (hrow : ∀ row, S (.insertLog row))
    (start : Time) (reservation : Resilience.RateLimit.ReservationId) (content : String)
    (tokensIn tokensOut : Int) (finishReason : Option String) :
    Straight C S
      (settle gw req start reservation backend content tokensIn tokensOut finishReason) := by
  simp only [settle, latencyRecord, bind_assoc]
  refine Straight.perform (hC.allowed _ rfl) (hops _ trivial) fun now => ?_
  refine Straight.perform (hC.allowed _ rfl) (hops _ ⟨rfl, rfl⟩) fun _ => ?_
  refine Straight.perform (hC.allowed _ rfl) (hops _ trivial) fun _ => ?_
  refine Straight.perform (hC.allowed _ rfl) (hops _ trivial) fun _ => ?_
  refine Straight.bind ((hC.store _ _ _).mono fun op hop => hops op ?_) fun _ => ?_
  · cases op <;> first | exact hop | exact hop.elim
  · refine Straight.perform (hC.allowed _ rfl) (hops _ trivial) fun _ => ?_
    exact Straight.perform (hC.allowed _ rfl) (hrow _) fun _ => .pure _

theorem straight_logUnavailable (hC : Admits C gw req) (hops : ∀ op, ClockOp op → S op)
    (hrow : ∀ row, S (.insertLog row)) (start : Time) :
    Straight C S (logUnavailable req start) :=
  Straight.perform (hC.allowed _ rfl) (hops _ trivial) fun _ => .call (hC.allowed _ rfl) (hrow _)

/-! ## Calls -/

/-- What `completeWith` tries. -/
theorem callTrace_complete (hC : Admits C gw req) (backend : Backend) (client : Client) :
    wp C (withSemaphore backend.id (call (.complete client req.messages backend.model)))
      fun trace r =>
        CallTrace backend client trace (r.map fun _ => ()) ∧ delivered trace = false := by
  have hacquire : C.allowed (.acquire backend.id) := hC.allowed _ rfl
  refine wp_withSemaphore hacquire (hC.allowed _ rfl) (fun e _ => ⟨.blocked, rfl⟩) fun u _ => ?_
  refine (wp_call _ _).mpr ⟨hC.allowed _ rfl, fun r _ left _ => ⟨?_, rfl⟩⟩
  let opening : Event := ⟨.complete client req.messages backend.model, r⟩
  have hopens : Opens client opening.1 := rfl
  have hended : Ended [opening] (r.map fun _ => ()) := by
    cases r with
    | error e => exact ⟨[], _, rfl, .nil⟩
    | ok completion => exact Smooth.cons completion .nil
  have hcall : CallTrace backend client _ (left.bind fun _ => r.map fun _ => ()) :=
    .entered hopens (by simp) hended left
  cases left with
  | error e => exact hcall
  | ok v => exact hcall

/-- What reading a stream performs: it ends with the exception that it leaves behind. -/
theorem wp_consume (hC : Admits C gw req) (client : Client)
    (events : List StreamEvent) (s : Consumed) :
    wp C (consume client events s) fun trace r => ∃ s' ended, r = .ok (s', ended) ∧
      (∀ ev ∈ trace, ContinueOp client ev.1) ∧ Ended trace ended ∧
      s'.anyYielded = (s.anyYielded || delivered trace) := by
  induction events generalizing s with
  | nil =>
    refine wp_attempt_bind (hC.allowed _ rfl) fun r _ => ?_
    refine ⟨s, r, rfl, by simp [ContinueOp], ?_, by simp [delivered]⟩
    cases r with
    | error e => exact ⟨[], _, rfl, .nil⟩
    | ok u => simp [Ended, Smooth]
  | cons event events ih =>
    refine wp_attempt_bind (hC.allowed _ rfl) fun r _ => ?_
    cases r with
    | error e =>
      exact ⟨s, .error e, rfl, by simp [ContinueOp], ⟨[], _, rfl, .nil⟩, by simp [delivered]⟩
    | ok u =>
      cases event with
      | usage usage =>
        refine wp_mono (ih { s with usage := some usage }) fun trace r hr => ?_
        obtain ⟨s', ended, rfl, hops, hended, hyielded⟩ := hr
        refine ⟨s', ended, rfl, ?_, hended.cons u, by simpa [delivered] using hyielded⟩
        exact List.forall_mem_cons.mpr ⟨rfl, hops⟩
      | text chunk =>
        refine wp_attempt_bind (hC.allowed _ rfl) fun r _ => ?_
        cases r with
        | error e =>
          refine ⟨_, .error e, rfl, by simp [ContinueOp], ?_, by simp [delivered]⟩
          exact Ended.cons u ⟨[], .emit (.text chunk), rfl, .nil⟩
        | ok v =>
          refine wp_mono (ih _) fun trace r hr => ?_
          obtain ⟨s', ended, rfl, hops, hended, hyielded⟩ := hr
          refine ⟨s', ended, rfl, ?_, ?_, ?_⟩
          · exact List.forall_mem_cons.mpr ⟨rfl, List.forall_mem_cons.mpr ⟨⟨chunk, rfl⟩, hops⟩⟩
          · exact (hended.cons v).cons u
          · simpa [delivered] using hyielded

/-- What `streamWith` tries. -/
theorem callTrace_stream (hC : Admits C gw req) (backend : Backend) (client : Client) :
    wp C (streamFrom req backend client) fun trace r => ∃ s ended, r = .ok (s, ended) ∧
      CallTrace backend client trace ended ∧ s.anyYielded = delivered trace := by
  unfold streamFrom
  refine wp_attempt_bind (hC.allowed _ rfl) fun r _ => ?_
  cases r with
  | error e =>
    exact ⟨{}, .error e, rfl, .blocked, rfl⟩
  | ok u =>
    obtain rfl : u = () := rfl
    refine (wp_bind _).mpr (wp_mono (Q := fun trace r => ∃ s ended opening rest,
      r = .ok (s, ended) ∧ trace = opening :: rest ∧ Opens client opening.1 ∧
      (∀ ev ∈ rest, ContinueOp client ev.1) ∧ Ended trace ended ∧
      s.anyYielded = delivered trace) ?_ fun trace r hr => ?_)
    · refine wp_attempt_bind (hC.allowed _ rfl) fun r _ => ?_
      cases r with
      | error e => exact ⟨{}, .error e, _, [], rfl, rfl, rfl, by simp, ⟨[], _, rfl, .nil⟩, rfl⟩
      | ok events =>
        refine wp_mono (wp_consume hC client events {}) fun trace r hr => ?_
        obtain ⟨s, ended, rfl, hops, hended, hyielded⟩ := hr
        exact ⟨s, ended, _, trace, rfl, rfl, rfl, hops, hended.cons events, hyielded⟩
    · obtain ⟨s, ended, opening, rest, rfl, rfl, hopens, hops, hended, hyielded⟩ := hr
      refine wp_attempt_bind (hC.allowed _ rfl) fun r' _ => ?_
      have htrace : CallTrace backend client _ (r'.bind fun _ => ended) :=
        .entered hopens hops hended r'
      have hdelivered : s.anyYielded = delivered (⟨.acquire backend.id, .ok ()⟩ ::
          (opening :: rest ++ [⟨.release backend.id, r'⟩])) := by
        simpa [delivered] using hyielded
      cases r' with
      | error e =>
        exact ⟨s, .error e, rfl, by simpa [Except.bind] using htrace, by simpa using hdelivered⟩
      | ok v =>
        exact ⟨s, ended, rfl, by simpa [Except.bind] using htrace, by simpa using hdelivered⟩

/-! ## Passes and the loop -/

theorem Tail.of_straight {x : Action β} (h : Straight C (TailOp false) x) (a : α) :
    wp C (x >>= fun _ => return a) fun trace r => Tail false trace r ∧ ∀ b, r = .ok b → b = a := by
  refine (wp_bind _).mpr (wp_mono h fun trace r hr => ?_)
  cases r with
  | error e => exact ⟨⟨hr.1, hr.2, fun hfalse => nomatch hfalse⟩, fun b hb => nomatch hb⟩
  | ok b =>
    rw [wp_pure, List.append_nil]
    exact ⟨⟨hr.1, hr.2, fun hfalse => nomatch hfalse⟩, fun b hb => (Except.ok.inj hb).symm⟩

/-- A stream ends by yielding its result. -/
theorem Tail.of_yield (hC : Admits C gw req) {x : Action Unit} {result : CompletionResult} {a : α}
    (hx : Straight C (fun op => TailOp true op ∧ ∀ result, op ≠ .emit (.result result)) x) :
    wp C (x >>= fun _ => Orchestrator.call (.emit (.result result)) >>= fun _ => return a)
      fun trace r => Tail true trace r ∧ ∀ b, r = .ok b → b = a := by
  refine (wp_bind _).mpr (wp_mono hx fun trace r hr => ?_)
  obtain ⟨hops, hended⟩ := hr
  have hold : ∀ ev ∈ trace, TailOp true ev.1 := fun ev hev => (hops ev hev).1
  have hnone : ∀ result, ⟨.emit (.result result), .ok ()⟩ ∉ trace := fun result hmem =>
    (hops _ hmem).2 result rfl
  cases r with
  | error e =>
    refine ⟨⟨hold, hended, fun _ => iff_of_false ?_ (by simp)⟩, fun b hb => nomatch hb⟩
    exact fun ⟨result, h⟩ => hnone result h
  | ok u =>
    have hsmooth : Smooth trace := hended
    refine (wp_bind _).mpr ((wp_call _ _).mpr ⟨hC.allowed _ rfl, fun r _ => ?_⟩)
    have hboth : ∀ ev ∈ trace ++ [⟨.emit (.result result), r⟩], TailOp true ev.1 :=
      List.forall_mem_append.mpr ⟨hold, by simp [TailOp]⟩
    cases r with
    | error e =>
      refine ⟨⟨hboth, Ended.after hsmooth ⟨[], _, rfl, .nil⟩, fun _ => iff_of_false ?_ (by simp)⟩,
        fun b hb => nomatch hb⟩
      intro h
      obtain ⟨result', hmem⟩ := h
      obtain hin | hlast := List.mem_append.mp hmem
      · exact hnone result' hin
      · simp at hlast
    | ok v =>
      refine ⟨⟨hboth, hsmooth.append (by simp [Smooth]),
        fun _ => iff_of_true ⟨result, ?_⟩ ⟨a, rfl⟩⟩,
        fun b hb => (Except.ok.inj hb).symm⟩
      exact List.mem_append_right _ List.mem_cons_self

variable {streaming : Bool} {backend : Backend} {client : Client}

/-- A failed call is recorded, and ends the walk if text has been delivered. -/
theorem BodyTrace.of_failed {call : List Event} {e : Raised}
    (hcall : CallTrace backend client call (.error e)) (he : e.isException = true)
    {x : Action Unit} (hx : Straight C (FailureOp backend) x) :
    wp C (x >>= fun _ => if delivered call then throw (.allBackendsUnavailable (some e))
        else return (Pass.next (some e) : Pass α)) fun trace r =>
      BodyTrace req streaming backend client (call ++ trace) r := by
  refine (wp_bind _).mpr (wp_mono hx fun trace r hr => ?_)
  have hfailed : BodyTrace (α := α) req streaming backend client (call ++ trace) _ :=
    .failed hcall he hr.1 hr.2
  cases r with
  | error e' => exact hfailed
  | ok u =>
    dsimp only [Except.bind] at hfailed
    split at hfailed
    · rename_i hdelivered
      rw [if_pos hdelivered]
      simpa [wp_throw] using hfailed
    · rename_i hdelivered
      rw [if_neg hdelivered]
      simpa [wp_pure] using hfailed

/-- An answered call is logged and ends the walk. -/
theorem BodyTrace.of_answered {call : List Event} (hcall : CallTrace backend client call (.ok ()))
    {x : Action (Pass α)} (hx : wp C x (Logs (SettleOp req backend)
      (fun trace r => Tail streaming trace r ∧ ∀ pass, r = .ok pass → ∃ a, pass = .done a) 200)) :
    wp C x fun trace r => BodyTrace req streaming backend client (call ++ trace) r :=
  wp_mono hx fun _ _ hr =>
    have ⟨hlogs, hdone⟩ := hr.split fun _ _ h => nomatch h
    .answered hcall hlogs hdone

theorem body_complete (hC : Admits C gw req) (start : Time)
    (reservation : Resilience.RateLimit.ReservationId) (backend : Backend) (client : Client) :
    wp C (completeWith gw req start reservation backend client)
      (BodyTrace req false backend client) := by
  unfold completeWith
  refine (wp_bind _).mpr ((wp_attempt _).mpr (wp_mono (callTrace_complete hC backend client) ?_))
  intro call outcome hcall
  obtain ⟨hcall, hdelivered⟩ := hcall
  cases outcome with
  | error e =>
    dsimp only
    cases he : e.isException with
    | false => simpa [wp_throw] using BodyTrace.cancelled hcall he
    | true =>
      have hbooks : Straight C (FailureOp backend) (Orchestrator.call (.record backend.id false) >>=
          fun _ => incr gw "gateway_backend_calls_total"
            [("backend", backend.name), ("outcome", "error")]) :=
        Straight.perform (hC.allowed _ rfl) ⟨rfl, rfl⟩ fun _ =>
          straight_incr hC (by simp [FailureOp])
      simpa [hdelivered] using BodyTrace.of_failed hcall he hbooks
  | ok completion =>
    refine BodyTrace.of_answered hcall
      (logs_settle hC start reservation backend _ _ _ _ fun latency => ?_)
    rw [← bind_assoc]
    refine wp_mono (Tail.of_straight ((straight_incr hC (by simp [TailOp])).bind fun _ =>
      straight_observe hC trivial) _) fun trace r hr => ?_
    exact ⟨hr.1, fun pass hpass => ⟨_, hr.2 pass hpass⟩⟩

theorem body_stream (hC : Admits C gw req) (start : Time)
    (reservation : Resilience.RateLimit.ReservationId) (backend : Backend) (client : Client) :
    wp C (streamWith gw req start reservation backend client)
      (BodyTrace req true backend client) := by
  unfold streamWith
  refine (wp_bind _).mpr (wp_mono (callTrace_stream hC backend client) ?_)
  intro call outcome hcall
  obtain ⟨s, ended, rfl, hcall, hyielded⟩ := hcall
  cases ended with
  | error e =>
    dsimp only
    cases he : e.isException with
    | false => simpa [wp_throw] using BodyTrace.cancelled hcall he
    | true =>
      have hbooks : Straight C (FailureOp backend) (Orchestrator.call (.record backend.id false)) :=
        .call (hC.allowed _ rfl) ⟨rfl, rfl⟩
      simpa [hyielded] using BodyTrace.of_failed hcall he hbooks
  | ok u =>
    refine BodyTrace.of_answered hcall
      (logs_settle hC start reservation backend _ _ _ _ fun latency => ?_)
    refine wp_mono (Tail.of_yield hC (straight_incr hC ⟨by simp [TailOp], by simp⟩))
      fun trace r hr => ?_
    exact ⟨hr.1, fun pass hpass => ⟨_, hr.2 pass hpass⟩⟩

/-- The failover loop has a trace as described if its parts have. -/
theorem wp_walk_trace (hC : Admits C gw req) {streaming : Bool}
    {body : Backend → Client → Action (Pass α)} {exhausted : Option Raised → Action α}
    (hbody : ∀ backend client, wp C (body backend client) (BodyTrace req streaming backend client))
    (hexhausted : ∀ err, wp C (exhausted err) (WalkTrace req streaming [] err))
    (remaining : List (Backend × Client)) (err : Option Raised) :
    wp C (walk req (stopIteration streaming) body exhausted remaining err)
      (WalkTrace req streaming remaining err) := by
  suffices h : WalkRule C req (stopIteration streaming) body exhausted (fun _ _ => True)
      (WalkTrace req streaming) from h.wp_walk trivial
  refine ⟨fun _ _ => hC.allowed _ rfl, fun _ _ _ => .unselected, fun _ _ _ hpair => .stopped hpair,
    fun _ _ => hC.allowed _ rfl, fun _ hpair _ => .unasked hpair,
    fun _ _ hpair _ => ⟨trivial, fun _ _ hrest => .rejected hpair hrest⟩, ?_, fun _ => hexhausted _⟩
  intro rem err chosen backend client _ _ hpair _
  refine wp_mono (hbody backend client) fun trace r hr => ?_
  cases r with
  | error e => exact .raised hpair hr
  | ok pass =>
    cases pass with
    | done a => exact .done hpair hr
    | next err' => exact ⟨trivial, fun _ _ hrest => .next hpair hr hrest⟩

/-- Once no candidate is left, a row is written and the request is given up. -/
theorem exhausted_trace (hC : Admits C gw req) (start : Time) {streaming : Bool}
    {x : Action Unit} (hx : Straight C FailoverMetric x) (err : Option Raised) :
    wp C (logUnavailable req start >>= fun _ => x >>= fun _ => throw (.allBackendsUnavailable err))
      (WalkTrace (α := α) req streaming [] err) := by
  have hlogs : wp C (logUnavailable req start >>= fun _ => x) (Logs ClockOp FailoverTail 503) :=
    logs_logUnavailable hC start (wp_mono hx fun _ _ hr => ⟨hr.1, hr.2⟩)
  rw [← bind_assoc]
  refine (wp_bind _).mpr (wp_mono hlogs fun trace r hr => ?_)
  cases r with
  | error e => exact .exhausted hr
  | ok u =>
    have hexhausted : WalkTrace (α := α) req streaming [] err trace _ := .exhausted hr
    simpa [wp_throw, Except.bind] using hexhausted

end Parts

/-! ## The handlers -/

/-- The candidates of a request that has missed the cache. -/
def route (req : ChatRequest) (loop : List (Backend × Client) → Action α) : Action α := do
  let remaining ← Orchestrator.call (.candidates req.model)
  if remaining = [] then throw .noBackendsAvailable
  else loop remaining

/-- Both handlers, for what they do about a cache hit and in the failover loop. -/
def pipeline (gw : RequestOrchestrator) (req : ChatRequest)
    (charged : Time → Resilience.RateLimit.ReservationId → CacheHit → Action α)
    (loop : Time → Resilience.RateLimit.ReservationId → List (Backend × Client) → Action α) :
    Action α := do
  let start ← Orchestrator.call .perfCounter
  match ← Orchestrator.call (.reserve req.apiKey.id (estimateTokens req.messages)
      req.apiKey.tokenBudget req.apiKey.windowSeconds) with
  | none => throw .rateLimitExceeded
  | some reservation =>
    match ← lookup gw req with
    | some hit => charged start reservation hit
    | none => route req (loop start reservation)

section Halves
variable (gw : RequestOrchestrator) (req : ChatRequest) (start : Time)
  (reservation : Resilience.RateLimit.ReservationId)

def completeHit (hit : CacheHit) : Action CompletionResult := do
  chargeHit gw req start reservation hit
  return hitResult req hit

def completeLoop (remaining : List (Backend × Client)) : Action CompletionResult :=
  walk req (.failure "coroutine raised StopIteration") (completeWith gw req start reservation)
    (fun lastError => do
      logUnavailable req start
      incr gw "gateway_failover_total" []
      throw (.allBackendsUnavailable lastError))
    remaining none

def streamHit (hit : CacheHit) : Action Unit := do
  chargeHit gw req start reservation hit
  Orchestrator.call (.emit (.text hit.content))
  Orchestrator.call (.emit (.result (hitResult req hit)))

def streamLoop (remaining : List (Backend × Client)) : Action Unit :=
  walk req (.failure "async generator raised StopIteration")
    (streamWith gw req start reservation)
    (fun lastError => do
      logUnavailable req start
      throw (.allBackendsUnavailable lastError))
    remaining none

end Halves

theorem handleComplete_eq (gw : RequestOrchestrator) (req : ChatRequest) :
    handleComplete gw req = pipeline gw req (completeHit gw req) (completeLoop gw req) := rfl

theorem handleStream_eq (gw : RequestOrchestrator) (req : ChatRequest) :
    handleStream gw req = pipeline gw req (streamHit gw req) (streamLoop gw req) := rfl

section Parts
variable {C : Contract} {gw : RequestOrchestrator} {req : ChatRequest}

theorem route_trace (hC : Admits C gw req) {streaming : Bool}
    {loop : List (Backend × Client) → Action α}
    (hloop : ∀ remaining, wp C (loop remaining) (WalkTrace req streaming remaining none)) :
    wp C (route req loop) fun trace r =>
      ∀ lead, Lead req lead → RequestTrace req streaming (lead ++ trace) r := by
  refine wp_call_bind (hC.allowed _ rfl) (fun e _ lead hlead => ?_) fun remaining _ => ?_
  · exact .interrupted hlead (by simp) ⟨[], _, rfl, .nil⟩
  · split
    · rename_i hnil
      subst hnil
      exact fun lead hlead => .unavailable hlead
    · rename_i hne
      exact wp_mono (hloop remaining) fun trace r hwalk lead hlead => .walked hlead hne hwalk

theorem request_trace (hC : Admits C gw req) {streaming : Bool}
    {charged : Time → Resilience.RateLimit.ReservationId → CacheHit → Action α}
    {loop : Time → Resilience.RateLimit.ReservationId → List (Backend × Client) → Action α}
    (hcharged : ∀ start reservation hit,
      wp C (charged start reservation hit) (Logs HitOp (Tail streaming) 200))
    (hloop : ∀ start reservation remaining,
      wp C (loop start reservation remaining) (WalkTrace req streaming remaining none)) :
    wp C (pipeline gw req charged loop) (RequestTrace req streaming) := by
  refine wp_call_bind (hC.allowed _ rfl) (fun e _ => .unread) fun start _ => ?_
  refine wp_call_bind (hC.allowed _ rfl) (fun e _ => .unreserved) fun reserved _ => ?_
  cases reserved with
  | none => exact .denied
  | some reservation =>
    refine (wp_bind _).mpr (wp_mono hC.lookup fun look r hr => ?_)
    obtain ⟨hops, hended⟩ := hr
    have hadmitted : ∀ tail, (∀ ev ∈ tail, LookupOp req ev.1) → Smooth tail →
        Lead req (⟨.perfCounter, .ok start⟩ :: ⟨.reserve req.apiKey.id
          (estimateTokens req.messages) req.apiKey.tokenBudget req.apiKey.windowSeconds,
          .ok (some reservation)⟩ :: tail) := fun tail hops hsmooth =>
      ⟨start, reservation, tail, rfl, hops, hsmooth⟩
    cases r with
    | error e =>
      have htrace : RequestTrace (α := α) req streaming (_ ++ look) (.error e) :=
        .interrupted (hadmitted [] (by simp) .nil) (fun ev hev => .inl (hops ev hev)) hended
      exact htrace
    | ok hit =>
      have hlead := hadmitted look hops hended
      cases hit with
      | some hit =>
        refine wp_mono (hcharged start reservation hit) fun trace r hlogs => ?_
        have htrace : RequestTrace req streaming (_ ++ trace) r := .hit hlead hlogs
        exact htrace
      | none =>
        exact wp_mono (route_trace hC (hloop start reservation)) fun trace r hr => hr _ hlead

/-- What happens before a hit is charged or the loop begins, after the clock has been read. -/
def LeadOp (req : ChatRequest) : Op → Prop
  | .reserve .. | .candidates _ => True
  | op => LookupOp req op

theorem LeadOp.outside {op : Op} (h : LeadOp req op) : op.outside = true := by
  cases op <;> first | rfl | exact h.elim

/-- A property of the runs of a handler, from those of its two ways to go on. -/
theorem wp_pipeline (hC : Admits C gw req)
    {charged : Time → Resilience.RateLimit.ReservationId → CacheHit → Action α}
    {loop : Time → Resilience.RateLimit.ReservationId → List (Backend × Client) → Action α}
    {Q : List Event → Except Raised α → Prop}
    (hlead : ∀ start lead e, (∀ ev ∈ lead, LeadOp req ev.1) →
      Q (⟨.perfCounter, start⟩ :: lead) (.error e))
    (hcharged : ∀ start reservation hit lead, (∀ ev ∈ lead, LeadOp req ev.1) →
      wp C (charged start reservation hit) fun trace r =>
        Q (⟨.perfCounter, .ok start⟩ :: (lead ++ trace)) r)
    (hloop : ∀ start reservation remaining lead, (∀ ev ∈ lead, LeadOp req ev.1) →
      wp C (loop start reservation remaining) fun trace r =>
        Q (⟨.perfCounter, .ok start⟩ :: (lead ++ trace)) r) :
    wp C (pipeline gw req charged loop) Q := by
  refine wp_call_bind (hC.allowed _ rfl) (fun e _ => hlead _ _ _ (by simp)) fun start _ => ?_
  refine wp_call_bind (hC.allowed _ rfl) (fun e _ => hlead _ _ _ (by simp [LeadOp]))
    fun reserved _ => ?_
  cases reserved with
  | none => exact hlead _ _ _ (by simp [LeadOp])
  | some reservation =>
    refine (wp_bind _).mpr (wp_mono hC.lookup fun look r hr => ?_)
    have hlook : ∀ ev ∈ look, LeadOp req ev.1 := fun ev hev => by
      have hop := hr.1 ev hev
      obtain ⟨op, r⟩ := ev
      cases op <;> first | exact hop | exact hop.elim
    have hreserved : ∀ ev ∈ (⟨.reserve req.apiKey.id (estimateTokens req.messages)
        req.apiKey.tokenBudget req.apiKey.windowSeconds, .ok (some reservation)⟩ :: look :
        List Event), LeadOp req ev.1 := List.forall_mem_cons.mpr ⟨trivial, hlook⟩
    cases r with
    | error e => exact hlead _ _ _ hreserved
    | ok hit =>
      cases hit with
      | some hit => exact hcharged start reservation hit _ hreserved
      | none =>
        have hoffered : ∀ reply : Reply (.candidates req.model), ∀ ev ∈ (⟨.reserve req.apiKey.id
            (estimateTokens req.messages) req.apiKey.tokenBudget req.apiKey.windowSeconds,
            .ok (some reservation)⟩ :: look ++ [⟨.candidates req.model, reply⟩] : List Event),
            LeadOp req ev.1 := fun reply =>
          List.forall_mem_append.mpr ⟨hreserved, List.forall_mem_singleton.mpr trivial⟩
        refine wp_call_bind (hC.allowed _ rfl) (fun e _ => hlead _ _ _ (hoffered (.error e)))
          fun remaining _ => ?_
        split
        · exact hlead _ _ _ (hoffered (.ok remaining))
        · have hrest := hloop start reservation remaining _ (hoffered (.ok remaining))
          simpa using hrest

theorem logs_completeHit (hC : Admits C gw req) (start : Time)
    (reservation : Resilience.RateLimit.ReservationId) (hit : CacheHit) :
    wp C (completeHit gw req start reservation hit) (Logs HitOp (Tail false) 200) :=
  logs_chargeHit hC start reservation hit
    (wp_mono (Tail.of_straight (straight_incr hC (by simp [TailOp])) _) fun _ _ hr => hr.1)

theorem walk_completeLoop (hC : Admits C gw req) (start : Time)
    (reservation : Resilience.RateLimit.ReservationId) (remaining : List (Backend × Client)) :
    wp C (completeLoop gw req start reservation remaining) (WalkTrace req false remaining none) :=
  wp_walk_trace hC (body_complete hC start reservation)
    (exhausted_trace hC start (straight_incr hC rfl)) remaining none

theorem logs_streamHit (hC : Admits C gw req) (start : Time)
    (reservation : Resilience.RateLimit.ReservationId) (hit : CacheHit) :
    wp C (streamHit gw req start reservation hit) (Logs HitOp (Tail true) 200) := by
  refine logs_chargeHit hC start reservation hit ?_
  have htext : Straight C (fun op => TailOp true op ∧ ∀ result, op ≠ .emit (.result result))
      (Orchestrator.call (.emit (.text hit.content))) := .call (hC.allowed _ rfl) ⟨rfl, by simp⟩
  have hyield : wp C ((incr gw "gateway_cache_hits_total" [("tier", hit.tier.value)] >>= fun _ =>
      Orchestrator.call (.emit (.text hit.content))) >>= fun _ =>
      Orchestrator.call (.emit (.result (hitResult req hit))) >>= fun _ => return ()) _ :=
    Tail.of_yield hC ((straight_incr hC ⟨by simp [TailOp], by simp⟩).bind fun _ => htext)
  simp only [bind_assoc, bind_pure_unit] at hyield
  exact wp_mono hyield fun _ _ hr => hr.1

theorem walk_streamLoop (hC : Admits C gw req) (start : Time)
    (reservation : Resilience.RateLimit.ReservationId) (remaining : List (Backend × Client)) :
    wp C (streamLoop gw req start reservation remaining) (WalkTrace req true remaining none) := by
  refine wp_walk_trace hC (body_stream hC start reservation) (fun err => ?_) remaining none
  simpa using exhausted_trace hC start (Straight.pure ()) err

/-- Every run of `handle_complete`. -/
theorem handleComplete_trace (hC : Admits C gw req) :
    wp C (handleComplete gw req) (RequestTrace req false) :=
  request_trace hC (logs_completeHit hC) (walk_completeLoop hC)

/-- Every run of `handle_stream`. -/
theorem handleStream_trace (hC : Admits C gw req) :
    wp C (handleStream gw req) (RequestTrace req true) :=
  request_trace hC (logs_streamHit hC) (walk_streamLoop hC)

end Parts

end InferenceGateway.Orchestrator
