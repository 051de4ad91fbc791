import InferenceGateway.Orchestrator.Bookkeeping
import InferenceGateway.Orchestrator.Evaluation
import InferenceGateway.Orchestrator.Traces

/-!
# One log row for each admitted request

An admitted request is logged when it is answered, from the cache or by a backend, and
when every candidate has been tried. It is not when there is no candidate at all, when a
stream breaks after its first text, or when anything else raises on the way.
-/
namespace InferenceGateway.Orchestrator
open Library Library.Action

variable {α : Type}

/-- The row that an event inserts. -/
def insertedRow : Event → Option RequestLog
  | ⟨.insertLog row, .ok _⟩ => some row
  | _ => none

def rows (trace : List Event) : List RequestLog := trace.filterMap insertedRow

/-- A result has been returned, or yielded. -/
def HasResult : (streaming : Bool) → List Event → Except Raised α → Prop
  | false, _, r => ∃ a, r = .ok a
  | true, trace, _ => ∃ result, ⟨.emit (.result result), .ok ()⟩ ∈ trace

/-- One row has been inserted, with status 200 exactly if a result was produced. -/
def LoggedOnce (streaming : Bool) (trace : List Event) (r : Except Raised α) : Prop :=
  ∃ row, rows trace = [row] ∧ (row.status = 200 ↔ HasResult streaming trace r)

/-! ## Which runs are logged -/

/-- What an operation has to reply for the request to reach a log row: there are
candidates, the policy chooses among them, calls raise nothing but `Exception`s, and
everything else returns. -/
def Tame : (op : Op) → Reply op → Prop
  | .candidates _, r => ∃ remaining, remaining ≠ [] ∧ r = .ok remaining
  | .select offered _, r => ∃ chosen, r = .ok chosen ∧ ∃ b ∈ offered, b.id = chosen.id
  | .acquire _, r | .complete .., r | .stream .., r | .anext _, r =>
    ∀ e, r = .error e → e.isException = true
  | .incr metric _, r => metric = "gateway_failover_total" ∨ ∃ a, r = .ok a
  | _, r => ∃ a, r = .ok a

/-- Nothing raises once text has been delivered. -/
def Unbroken (trace : List Event) : Prop :=
  ∀ before ev after, trace = before ++ ev :: after → delivered before = true → ∃ a, ev.2 = .ok a

/-- The run of a request that is logged. -/
def Fine (trace : List Event) : Prop := (∀ ev ∈ trace, Tame ev.1 ev.2) ∧ Unbroken trace

/-- The reservation has been made. -/
def Admitted (req : ChatRequest) (trace : List Event) : Prop :=
  ∃ reservation, ⟨.reserve req.apiKey.id (estimateTokens req.messages) req.apiKey.tokenBudget
    req.apiKey.windowSeconds, .ok (some reservation)⟩ ∈ trace

/-- Rows are inserted, the consumer reads on, and leaving a semaphore does not raise. -/
def Reliable : (op : Op) → Reply op → Prop
  | .insertLog _, r | .emit _, r | .release _, r => r = .ok ()
  | _, _ => True

/-- The operations that rows and results are found in. -/
def Op.shows : Op → Bool
  | .insertLog _ | .emit _ => true
  | _ => false

theorem Op.ne_insertLog {op : Op} (h : op.shows = false) (row : RequestLog) :
    op ≠ .insertLog row := by
  rintro rfl
  exact nomatch h

theorem Op.ne_emit {op : Op} (h : op.shows = false) (event : Yielded) : op ≠ .emit event := by
  rintro rfl
  exact nomatch h

/-- A run is logged exactly if it is fine. -/
def Exact (streaming : Bool) (trace : List Event) (r : Except Raised α) : Prop :=
  LoggedOnce streaming trace r ↔ Fine trace

section Rules
variable {streaming : Bool} {trace trace' : List Event} {r : Except Raised α}

theorem rows_append : rows (trace ++ trace') = rows trace ++ rows trace' :=
  List.filterMap_append

theorem insertedRow_eq_none {ev : Event} (h : ∀ row, ev.1 ≠ .insertLog row) :
    insertedRow ev = none := by
  unfold insertedRow
  split
  · exact absurd rfl (h _)
  · rfl

theorem rows_eq_nil (h : ∀ ev ∈ trace, ∀ row, ev.1 ≠ .insertLog row) : rows trace = [] :=
  List.filterMap_eq_nil_iff.mpr fun ev hev => insertedRow_eq_none (h ev hev)

/-- Nothing else inserts a row. -/
theorem rows_inserted {row : RequestLog} (hbefore : ∀ ev ∈ trace, ∀ row, ev.1 ≠ .insertLog row)
    (hafter : ∀ ev ∈ trace', ∀ row, ev.1 ≠ .insertLog row) :
    rows (trace ++ ⟨.insertLog row, .ok ()⟩ :: trace') = [row] := by
  have hhere : rows (⟨.insertLog row, .ok ()⟩ :: trace') = row :: rows trace' := rfl
  rw [rows_append, hhere, rows_eq_nil hbefore, rows_eq_nil hafter, List.nil_append]

theorem delivered_eq_false (h : ∀ ev ∈ trace, ∀ chunk, ev.1 ≠ .emit (.text chunk)) :
    delivered trace = false := by
  refine List.any_eq_false.mpr fun ev hev => ?_
  split
  · rename_i heq
    exact absurd heq (h ev hev _)
  · simp

theorem delivered_append : delivered (trace ++ trace') = (delivered trace || delivered trace') :=
  List.any_append

theorem Unbroken.of_smooth (h : Smooth trace) : Unbroken trace := by
  rintro before ev after rfl _
  exact h ev (by simp)

theorem Unbroken.of_undelivered (h : delivered trace = false) : Unbroken trace := by
  rintro before ev after rfl hbefore
  rw [delivered_append, hbefore] at h
  exact nomatch h

/-- Before any text is delivered, only what follows matters. -/
theorem unbroken_append_iff (h : delivered trace = false) :
    Unbroken (trace ++ trace') ↔ Unbroken trace' := by
  constructor
  · rintro hunbroken before ev after rfl hbefore
    refine hunbroken (trace ++ before) ev after (by simp) ?_
    rw [delivered_append, hbefore, Bool.or_true]
  · intro hunbroken before ev after heq hbefore
    obtain ⟨rest, rfl, hrest⟩ | ⟨rest, rfl, hrest⟩ := List.append_eq_append_iff.mp heq
    · refine hunbroken rest ev after hrest ?_
      rwa [delivered_append, h, Bool.false_or] at hbefore
    · rw [delivered_append, hbefore] at h
      exact nomatch h

/-- A part that shows nothing and is tame does not matter. -/
theorem Exact.append (h : ∀ ev ∈ trace, ev.1.shows = false ∧ Tame ev.1 ev.2)
    (hrest : Exact streaming trace' r) : Exact streaming (trace ++ trace') r := by
  have hrows : rows trace = [] := rows_eq_nil fun ev hev => Op.ne_insertLog (h ev hev).1
  have hundelivered : delivered trace = false :=
    delivered_eq_false fun ev hev chunk => Op.ne_emit (h ev hev).1 _
  have hresult : HasResult streaming (trace ++ trace') r ↔ HasResult streaming trace' r := by
    cases streaming with
    | false => exact Iff.rfl
    | true =>
      refine exists_congr fun result => ⟨fun hmem => ?_, fun hmem => List.mem_append_right _ hmem⟩
      obtain hl | hr := List.mem_append.mp hmem
      · exact absurd rfl (Op.ne_emit (h _ hl).1 _)
      · exact hr
  have htame : (∀ ev ∈ trace, Tame ev.1 ev.2) := fun ev hev => (h ev hev).2
  unfold Exact LoggedOnce Fine at *
  rw [rows_append, hrows, List.nil_append, hresult, hrest, unbroken_append_iff hundelivered,
    List.forall_mem_append]
  exact and_congr_left fun _ => ⟨fun h => ⟨htame, h⟩, And.right⟩

/-- Neither a row, nor fine. -/
theorem Exact.of_not (hrows : rows trace = []) (hfine : ¬ Fine trace) :
    Exact streaming trace r := by
  refine iff_of_false (fun hlogged => ?_) hfine
  obtain ⟨row, hrow, -⟩ := hlogged
  simp [hrows] at hrow

theorem not_fine_of_mem {ev : Event} (hmem : ev ∈ trace) (h : ¬ Tame ev.1 ev.2) : ¬ Fine trace :=
  fun hfine => h (hfine.1 ev hmem)

/-- An operation of the bookkeeping: it shows nothing, and is tame when it returns. -/
def Plain (op : Op) : Prop := op.shows = false ∧ ∀ r, Tame op r ↔ ∃ a, r = .ok a

theorem plain_of_lookupOp {req : ChatRequest} {op : Op} (h : LookupOp req op) : Plain op := by
  cases op <;> first | exact h.elim | exact ⟨rfl, fun _ => Iff.rfl⟩

theorem plain_of_hitOp {op : Op} (h : HitOp op) : Plain op := by
  cases op <;> first | exact h.elim | exact ⟨rfl, fun _ => Iff.rfl⟩

theorem plain_of_settleOp {req : ChatRequest} {backend : Backend} {op : Op}
    (h : SettleOp req backend op) : Plain op := by
  cases op <;> first | exact h.elim | exact ⟨rfl, fun _ => Iff.rfl⟩

theorem plain_of_clockOp {op : Op} (h : ClockOp op) : Plain op := by
  cases op <;> first | exact h.elim | exact ⟨rfl, fun _ => Iff.rfl⟩

theorem plain_incr {metric : String} {labels : List (String × String)}
    (h : metric ≠ "gateway_failover_total") : Plain (.incr metric labels) :=
  ⟨rfl, fun _ => or_iff_right h⟩

theorem plain_of_failureOp {backend : Backend} {op : Op} (h : FailureOp backend op) : Plain op := by
  cases op with
  | record id ok => exact ⟨rfl, fun _ => Iff.rfl⟩
  | incr metric labels => exact plain_incr h
  | _ => exact h.elim

theorem tame_tailOp_iff {op : Op} {r : Reply op} (h : TailOp streaming op) :
    Tame op r ↔ ∃ a, r = .ok a := by
  cases op with
  | incr metric labels => exact or_iff_right h
  | observe metric value labels => exact Iff.rfl
  | emit event => exact Iff.rfl
  | _ => exact h.elim

/-- An exception of the bookkeeping ends a request without a row. -/
theorem Exact.of_raised {call : List Event} {e : Raised}
    (hcall : ∀ ev ∈ call, ∀ row, ev.1 ≠ .insertLog row) (hops : ∀ ev ∈ trace, Plain ev.1)
    (hended : Ended trace (.error e : Except Raised α)) :
    Exact streaming (call ++ trace) (.error e : Except Raised α) := by
  have hquiet : ∀ ev ∈ trace, ∀ row, ev.1 ≠ .insertLog row :=
    fun ev hev => Op.ne_insertLog (hops ev hev).1
  refine .of_not (rows_eq_nil (List.forall_mem_append.mpr ⟨hcall, hquiet⟩)) ?_
  obtain ⟨op, hop⟩ := hended.raised
  refine not_fine_of_mem (List.mem_append_right _ hop) fun htame => ?_
  obtain ⟨a, ha⟩ := ((hops _ hop).2 _).mp htame
  exact nomatch ha

theorem Tail.ne_insertLog (h : Tail streaming trace r) {ev : Event} (hev : ev ∈ trace)
    (row : RequestLog) : ev.1 ≠ .insertLog row := by
  intro heq
  simpa [heq, TailOp] using h.ops ev hev

/-- After the row there is a result exactly if the request returns. -/
theorem Tail.hasResult_iff (h : Tail streaming trace' r) {row : RequestLog}
    (hnoresult : ∀ ev ∈ trace, ∀ result, ev.1 ≠ .emit (.result result)) :
    HasResult streaming (trace ++ ⟨.insertLog row, .ok ()⟩ :: trace') r ↔ ∃ a, r = .ok a := by
  cases streaming with
  | false => exact Iff.rfl
  | true =>
    refine Iff.trans (exists_congr fun result => ?_) (h.yields rfl)
    constructor
    · intro hmem
      obtain hin | hmem := List.mem_append.mp hmem
      · exact absurd rfl (hnoresult _ hin result)
      · simpa using hmem
    · intro hmem
      exact List.mem_append_right _ (List.mem_cons_of_mem _ hmem)

theorem tame_of_plain (hops : ∀ ev ∈ trace, Plain ev.1) (hsmooth : Smooth trace) :
    ∀ ev ∈ trace, Tame ev.1 ev.2 := fun ev hev => ((hops ev hev).2 _).mpr (hsmooth ev hev)

/-- The row of an answered request, after a call without exceptions or a lookup. -/
theorem exact_answered {book : Op → Prop} (hbook : ∀ op, book op → Plain op) {call : List Event}
    (hcall : ∀ ev ∈ call, Tame ev.1 ev.2) (hsmooth : Smooth call)
    (hnorow : ∀ ev ∈ call, ∀ row, ev.1 ≠ .insertLog row)
    (hnoresult : ∀ ev ∈ call, ∀ result, ev.1 ≠ .emit (.result result))
    (hlogs : Logs book (Tail streaming) 200 trace r)
    (hreliable : ∀ ev ∈ trace, Reliable ev.1 ev.2) : Exact streaming (call ++ trace) r := by
  cases hlogs with
  | early hops hended => exact .of_raised hnorow (fun ev hev => hbook _ (hops ev hev)) hended
  | @refused before row e hops hsmooth' hstatus =>
    have hkept : Except.error e = Except.ok () := hreliable ⟨.insertLog row, .error e⟩ (by simp)
    simp at hkept
  | @logged before after row r hops hsmooth' hstatus htail =>
    have hplain : ∀ ev ∈ before, Plain ev.1 := fun ev hev => hbook _ (hops ev hev)
    have hrows : rows (call ++ (before ++ ⟨.insertLog row, .ok ()⟩ :: after)) = [row] := by
      rw [← List.append_assoc]
      refine rows_inserted (List.forall_mem_append.mpr ⟨hnorow, fun ev hev => ?_⟩)
        fun ev hev => htail.ne_insertLog hev
      exact Op.ne_insertLog (hplain ev hev).1
    have hresult : HasResult streaming (call ++ (before ++ ⟨.insertLog row, .ok ()⟩ :: after)) r ↔
        ∃ a, r = .ok a := by
      rw [← List.append_assoc]
      refine htail.hasResult_iff (List.forall_mem_append.mpr ⟨hnoresult, fun ev hev result => ?_⟩)
      exact Op.ne_emit (hplain ev hev).1 _
    have hlogged : LoggedOnce streaming (call ++ (before ++ ⟨.insertLog row, .ok ()⟩ :: after)) r ↔
        ∃ a, r = .ok a := by
      unfold LoggedOnce
      rw [hresult, hrows]
      simp [hstatus]
    refine hlogged.trans ?_
    cases r with
    | ok a =>
      have hended : Smooth after := htail.ended
      have hrest : Smooth (⟨.insertLog row, .ok ()⟩ :: after) :=
        List.forall_mem_cons.mpr ⟨⟨(), rfl⟩, hended⟩
      refine iff_of_true ⟨a, rfl⟩ ⟨?_, .of_smooth (hsmooth.append (hsmooth'.append hrest))⟩
      refine List.forall_mem_append.mpr ⟨hcall, List.forall_mem_append.mpr
        ⟨tame_of_plain hplain hsmooth', List.forall_mem_cons.mpr ⟨⟨(), rfl⟩, fun ev hev => ?_⟩⟩⟩
      exact (tame_tailOp_iff (htail.ops ev hev)).mpr (hended ev hev)
    | error e =>
      obtain ⟨op, hop⟩ := htail.ended.raised
      have hmem : (⟨op, .error e⟩ : Event) ∈
          call ++ (before ++ ⟨.insertLog row, .ok ()⟩ :: after) := by
        simp [hop]
      refine iff_of_false (by simp) (not_fine_of_mem hmem fun htame => ?_)
      obtain ⟨a, ha⟩ := (tame_tailOp_iff (htail.ops _ hop)).mp htame
      simp at ha

/-! ## Calls -/

variable {backend : Backend} {client : Client} {call : List Event} {e : Raised}

theorem CallTrace.not_insertLog {r : Except Raised Unit} (h : CallTrace backend client call r) :
    ∀ ev ∈ call, ∀ row, ev.1 ≠ .insertLog row := by
  intro ev hev row heq
  have hop := h.ops ev hev
  rwa [heq] at hop

theorem CallTrace.not_result {r : Except Raised Unit} (h : CallTrace backend client call r) :
    ∀ ev ∈ call, ∀ result, ev.1 ≠ .emit (.result result) := by
  intro ev hev result heq
  have hop := h.ops ev hev
  rw [heq] at hop
  obtain ⟨chunk, hchunk⟩ := hop
  exact nomatch hchunk

theorem tame_of_callOp {op : Op} (h : CallOp backend client op) (a : Ret op) : Tame op (.ok a) := by
  cases op <;> first | exact h.elim | exact ⟨a, rfl⟩ | exact nofun

theorem tame_of_smooth_call (hops : ∀ ev ∈ call, CallOp backend client ev.1)
    (hsmooth : Smooth call) :
    ∀ ev ∈ call, Tame ev.1 ev.2 := by
  intro ev hev
  obtain ⟨a, ha⟩ := hsmooth ev hev
  rw [ha]
  exact tame_of_callOp (hops ev hev) a

theorem tame_error_iff {op : Op} (h : CallOp backend client op)
    (hreliable : Reliable op (.error e)) :
    op.shows = false ∧ (Tame op (.error e) ↔ e.isException = true) := by
  cases op with
  | acquire id => exact ⟨rfl, by simp [Tame]⟩
  | complete c messages model => exact ⟨rfl, by simp [Tame]⟩
  | stream c messages model => exact ⟨rfl, by simp [Tame]⟩
  | anext c => exact ⟨rfl, by simp [Tame]⟩
  | release id => exact nomatch hreliable
  | emit event => exact nomatch hreliable
  | _ => exact h.elim

/-- A call fails with the one exception raised in it, unless leaving raises. -/
theorem CallTrace.failed (h : CallTrace backend client call (.error e))
    (hreliable : ∀ ev ∈ call, Reliable ev.1 ev.2) :
    ∃ before op after, call = before ++ ⟨op, .error e⟩ :: after ∧ Smooth before ∧ Smooth after ∧
      ∀ ev ∈ after, ev.1.shows = false := by
  generalize hr : (Except.error e : Except Raised Unit) = r at h
  cases h with
  | blocked =>
    obtain rfl := Except.error.inj hr
    exact ⟨[], _, [], rfl, .nil, .nil, by simp⟩
  | @entered opening rest ended hopens hops hended left =>
    have hleft : left = .ok () := hreliable ⟨.release backend.id, left⟩ (by simp)
    subst hleft
    obtain rfl : Except.error e = ended := hr
    obtain ⟨before, op, hsplit, hsmooth⟩ := hended
    refine ⟨⟨.acquire backend.id, .ok ()⟩ :: before, op, [⟨.release backend.id, .ok ()⟩], ?_,
      List.forall_mem_cons.mpr ⟨⟨(), rfl⟩, hsmooth⟩, by simp [Smooth], by simp [Op.shows]⟩
    simp [hsplit]

theorem CallTrace.tame_of_exception (h : CallTrace backend client call (.error e))
    (hreliable : ∀ ev ∈ call, Reliable ev.1 ev.2) (he : e.isException = true) :
    ∀ ev ∈ call, Tame ev.1 ev.2 := by
  have hops := h.ops
  obtain ⟨before, op, after, rfl, hbefore, hafter, -⟩ := h.failed hreliable
  obtain ⟨hopsBefore, hopsRest⟩ := List.forall_mem_append.mp hops
  obtain ⟨hop, hopsAfter⟩ := List.forall_mem_cons.mp hopsRest
  refine List.forall_mem_append.mpr ⟨tame_of_smooth_call hopsBefore hbefore, ?_⟩
  refine List.forall_mem_cons.mpr ⟨?_, tame_of_smooth_call hopsAfter hafter⟩
  exact (tame_error_iff hop (hreliable _ (by simp))).2.mpr he

/-- A stream that fails after a text is broken. -/
theorem CallTrace.broken (h : CallTrace backend client call (.error e))
    (hreliable : ∀ ev ∈ call, Reliable ev.1 ev.2) (hdelivered : delivered call = true)
    (after : List Event) : ¬ Unbroken (call ++ after) := by
  have hops := h.ops
  obtain ⟨before, op, leaving, rfl, -, -, hquiet⟩ := h.failed hreliable
  have hop : CallOp backend client op := hops ⟨op, .error e⟩ (by simp)
  have hshows := (tame_error_iff hop (hreliable ⟨op, .error e⟩ (by simp))).1
  have hlate : delivered (⟨op, .error e⟩ :: leaving) = false := by
    exact delivered_eq_false (List.forall_mem_cons.mpr ⟨fun chunk => Op.ne_emit hshows _,
      fun ev hev chunk => Op.ne_emit (hquiet ev hev) _⟩)
  rw [delivered_append, hlate, Bool.or_false] at hdelivered
  intro hunbroken
  obtain ⟨a, ha⟩ := hunbroken before ⟨op, .error e⟩ (leaving ++ after) (by simp) hdelivered
  exact nomatch ha

/-- Without texts nothing of a call shows. -/
theorem shows_of_callOp (hops : ∀ ev ∈ call, CallOp backend client ev.1)
    (hundelivered : delivered call = false) : ∀ ev ∈ call, ev.1.shows = false := by
  intro ev hev
  have hop := hops ev hev
  have hnone := List.any_eq_false.mp hundelivered ev hev
  obtain ⟨op, reply⟩ := ev
  cases op <;> first | rfl | exact hop.elim | skip
  obtain ⟨chunk, rfl⟩ := hop
  simp at hnone

/-! ## Passes and the loop -/

variable {req : ChatRequest}

/-- A pass that ends the loop is logged exactly if it is fine; one that goes on does not
matter. -/
theorem BodyTrace.exact {β : Type} {r : Except Raised (Pass β)}
    (h : BodyTrace req streaming backend client trace r)
    (hreliable : ∀ ev ∈ trace, Reliable ev.1 ev.2) :
    (∀ err, r = .ok (.next err) → ∀ ev ∈ trace, ev.1.shows = false ∧ Tame ev.1 ev.2) ∧
    ((∀ err, r ≠ .ok (.next err)) → Exact streaming trace r) := by
  cases h with
  | @cancelled call e hcall he =>
    refine ⟨nofun, fun _ => .of_not (rows_eq_nil hcall.not_insertLog) ?_⟩
    obtain ⟨op, hop⟩ := hcall.raised
    refine not_fine_of_mem hop fun htame => ?_
    rw [(tame_error_iff (hcall.ops _ hop) (hreliable _ hop)).2, he] at htame
    exact nomatch htame
  | @failed call after e r hcall he hops hended =>
    obtain ⟨hkept, -⟩ := List.forall_mem_append.mp hreliable
    have hplain : ∀ ev ∈ after, Plain ev.1 := fun ev hev => plain_of_failureOp (hops ev hev)
    cases r with
    | error e' => exact ⟨nofun, fun _ => .of_raised hcall.not_insertLog hplain hended⟩
    | ok u =>
      dsimp only [Except.bind]
      split
      · rename_i hdelivered
        refine ⟨nofun, fun _ => .of_not (rows_eq_nil ?_) fun hfine =>
          hcall.broken hkept hdelivered after hfine.2⟩
        exact List.forall_mem_append.mpr
          ⟨hcall.not_insertLog, fun ev hev => Op.ne_insertLog (hplain ev hev).1⟩
      · rename_i hdelivered
        have hended : Smooth after := hended
        refine ⟨fun _ _ => ?_, fun hnext => absurd rfl (hnext _)⟩
        refine List.forall_mem_append.mpr ⟨fun ev hev => ⟨?_, ?_⟩, fun ev hev =>
          ⟨(hplain ev hev).1, tame_of_plain hplain hended ev hev⟩⟩
        · exact shows_of_callOp hcall.ops (by simpa using hdelivered) ev hev
        · exact hcall.tame_of_exception hkept he ev hev
  | answered hcall hlogs hdone =>
    obtain ⟨-, hkept⟩ := List.forall_mem_append.mp hreliable
    refine ⟨fun err heq => ?_, fun _ => ?_⟩
    · obtain ⟨a, ha⟩ := hdone _ heq
      exact nomatch ha
    · exact exact_answered (fun _ => plain_of_settleOp) (tame_of_smooth_call hcall.ops hcall.smooth)
        hcall.smooth hcall.not_insertLog hcall.not_result hlogs hkept

/-- Only whether there is a result matters. -/
theorem Exact.of_same {β : Type} {r : Except Raised α} {r' : Except Raised β}
    (h : Exact streaming trace r) (hr : (∃ a, r = .ok a) ↔ ∃ b, r' = .ok b) :
    Exact streaming trace r' := by
  refine Iff.trans (exists_congr fun row => and_congr_right fun _ => ?_) h
  cases streaming with
  | false => rw [HasResult, HasResult, hr]
  | true => rfl

/-- Giving up is logged, and the metric that follows may raise. -/
theorem exact_exhausted {err : Option Raised} {r : Except Raised Unit}
    (h : Logs ClockOp FailoverTail 503 trace r) (hreliable : ∀ ev ∈ trace, Reliable ev.1 ev.2) :
    Exact streaming trace
      (r.bind fun _ => .error (.allBackendsUnavailable err) : Except Raised α) := by
  cases h with
  | early hops hended =>
    have hplain : ∀ ev ∈ trace, Plain ev.1 := fun ev hev => plain_of_clockOp (hops ev hev)
    have hraised : Exact streaming ([] ++ trace) (.error _ : Except Raised Unit) :=
      .of_raised (by simp) hplain hended
    exact hraised.of_same (by simp [Except.bind])
  | @refused before row e hops hsmooth hstatus =>
    have hkept : Except.error e = Except.ok () := hreliable ⟨.insertLog row, .error e⟩ (by simp)
    simp at hkept
  | @logged before after row r hops hsmooth hstatus htail =>
    have hplain : ∀ ev ∈ before, Plain ev.1 := fun ev hev => plain_of_clockOp (hops ev hev)
    have hbefore : ∀ ev ∈ before, ev.1.shows = false ∧ Tame ev.1 ev.2 := fun ev hev =>
      ⟨(hplain ev hev).1, tame_of_plain hplain hsmooth ev hev⟩
    refine .append hbefore (iff_of_true ⟨row, ?_, ?_⟩ ⟨?_, .of_undelivered ?_⟩)
    · have hafter : ∀ ev ∈ after, ∀ row, ev.1 ≠ .insertLog row := fun ev hev row heq => by
        simpa [heq, FailoverMetric] using htail.ops ev hev
      exact rows_inserted (List.forall_mem_nil _) hafter
    · refine iff_of_false (by simp [hstatus]) ?_
      cases streaming with
      | false => cases r <;> simp [HasResult, Except.bind]
      | true =>
        intro ⟨result, hmem⟩
        obtain heq | hmem := List.mem_cons.mp hmem
        · exact nomatch congrArg Sigma.fst heq
        · exact htail.ops _ hmem
    · refine List.forall_mem_cons.mpr ⟨⟨(), rfl⟩, fun ev hev => ?_⟩
      have hop := htail.ops ev hev
      obtain ⟨op, reply⟩ := ev
      cases op <;> first | exact hop.elim | exact .inl hop
    · refine delivered_eq_false (List.forall_mem_cons.mpr ⟨nofun, fun ev hev chunk heq => ?_⟩)
      simpa [heq, FailoverMetric] using htail.ops ev hev

theorem tame_select_iff {chosen : Backend} {rem : List (Backend × Client)}
    {features : RequestFeatures} :
    Tame (.select (rem.map Prod.fst) features) (.ok chosen) ↔
      ∃ pair, pairOf chosen.id rem = some pair := by
  rw [← Option.isSome_iff_exists, pairOf, List.find?_isSome]
  simp [Tame]

/-- Asking the policy and the breaker does not matter. -/
theorem exact_asked {rem : List (Backend × Client)} {chosen : Backend} {pair : Backend × Client}
    {features : RequestFeatures} {id : Uuid} {admitted : Bool}
    (hpair : pairOf chosen.id rem = some pair) (h : Exact streaming trace r) :
    Exact streaming (⟨.select (rem.map Prod.fst) features, .ok chosen⟩ ::
      ⟨.allow id, .ok admitted⟩ :: trace) r := by
  have hask : ∀ ev ∈ [(⟨.select (rem.map Prod.fst) features, .ok chosen⟩ : Event),
      ⟨.allow id, .ok admitted⟩], ev.1.shows = false ∧ Tame ev.1 ev.2 :=
    List.forall_mem_cons.mpr ⟨⟨rfl, tame_select_iff.mpr ⟨pair, hpair⟩⟩,
      List.forall_mem_singleton.mpr ⟨rfl, admitted, rfl⟩⟩
  exact h.append hask

theorem WalkTrace.exact {rem : List (Backend × Client)} {err : Option Raised}
    (h : WalkTrace req streaming rem err trace r) (hreliable : ∀ ev ∈ trace, Reliable ev.1 ev.2) :
    Exact streaming trace r := by
  induction h with
  | exhausted hlogs => exact exact_exhausted hlogs hreliable
  | unselected => exact .of_not rfl (not_fine_of_mem (List.mem_singleton_self _) (by simp [Tame]))
  | stopped hpair =>
    refine .of_not rfl (not_fine_of_mem (List.mem_singleton_self _) fun htame => ?_)
    obtain ⟨pair, hsome⟩ := tame_select_iff.mp htame
    exact nomatch hpair.symm.trans hsome
  | unasked hpair =>
    refine .of_not rfl (not_fine_of_mem (List.mem_cons_of_mem _ (List.mem_singleton_self _)) ?_)
    simp [Tame]
  | rejected hpair _ ih =>
    exact exact_asked hpair (ih fun ev hev => hreliable ev (by simp [hev]))
  | raised hpair hbody =>
    have hexact := (hbody.exact fun ev hev => hreliable ev (by simp [hev])).2 nofun
    exact exact_asked hpair (hexact.of_same (by simp))
  | done hpair hbody =>
    have hexact := (hbody.exact fun ev hev => hreliable ev (by simp [hev])).2 (by simp)
    exact exact_asked hpair (hexact.of_same (by simp))
  | next hpair hbody _ ih =>
    have hpass := (hbody.exact fun ev hev => hreliable ev (by simp [hev])).1 _ rfl
    exact exact_asked hpair (.append hpass (ih fun ev hev => hreliable ev (by simp [hev])))

/-- An admitted request is logged exactly if its run is fine. -/
theorem RequestTrace.exact (h : RequestTrace req streaming trace r)
    (hreliable : ∀ ev ∈ trace, Reliable ev.1 ev.2)
    (hadmitted : Admitted req trace) : Exact streaming trace r := by
  have hlead : ∀ {lead : List Event}, Lead req lead →
      ∀ ev ∈ lead, ev.1.shows = false ∧ Tame ev.1 ev.2 := by
    rintro _ ⟨start, reservation, look, rfl, hops, hsmooth⟩
    have hplain : ∀ ev ∈ look, Plain ev.1 := fun ev hev => plain_of_lookupOp (hops ev hev)
    refine List.forall_mem_cons.mpr ⟨⟨rfl, start, rfl⟩, List.forall_mem_cons.mpr
      ⟨⟨rfl, some reservation, rfl⟩, fun ev hev => ⟨(hplain ev hev).1, ?_⟩⟩⟩
    exact tame_of_plain hplain hsmooth ev hev
  cases h with
  | unread => simp [Admitted] at hadmitted
  | unreserved => simp [Admitted] at hadmitted
  | denied => simp [Admitted] at hadmitted
  | @interrupted lead look e hl hops hended =>
    have hquiet : ∀ ev ∈ look, ∀ row, ev.1 ≠ .insertLog row := fun ev hev row heq => by
      simpa [heq, LookupOp] using hops ev hev
    obtain ⟨op, hop⟩ := hended.raised
    refine .append (hlead hl) (.of_not (rows_eq_nil hquiet) (not_fine_of_mem hop fun htame => ?_))
    obtain hlookup | rfl : LookupOp req op ∨ op = .candidates req.model := hops _ hop
    · obtain ⟨a, ha⟩ := ((plain_of_lookupOp hlookup).2 _).mp htame
      exact nomatch ha
    · simp [Tame] at htame
  | hit hl hlogs =>
    refine .append (hlead hl) ?_
    exact exact_answered (fun _ => plain_of_hitOp) (by simp) .nil (by simp) (by simp) hlogs
      fun ev hev => hreliable ev (List.mem_append_right _ hev)
  | unavailable hl =>
    refine .append (hlead hl) (.of_not rfl (not_fine_of_mem (List.mem_singleton_self _) ?_))
    simp [Tame]
  | @walked lead trace remaining r hl hne hwalk =>
    have hlisted : ∀ ev ∈ [(⟨.candidates req.model, .ok remaining⟩ : Event)],
        ev.1.shows = false ∧ Tame ev.1 ev.2 :=
      List.forall_mem_singleton.mpr ⟨rfl, remaining, hne, rfl⟩
    have hrest : Exact streaming trace r := hwalk.exact fun ev hev => hreliable ev (by simp [hev])
    exact (hrest.append hlisted).append (hlead hl)

end Rules

section Handlers
variable {streaming : Bool} {answer : List Event → (op : Op) → Reply op} {req : ChatRequest}

theorem exact_run {x : Action α} (hx : wp (.expecting Reliable) x (RequestTrace req streaming))
    (hreliable : ∀ past op, Reliable op (answer past op))
    (hadmitted : Admitted req (Program.run answer [] x.run).1) :
    Exact streaming (Program.run answer [] x.run).1 (Program.run answer [] x.run).2 := by
  obtain ⟨hkept, htrace⟩ := Program.wp_run (Program.wp_kept hx) hreliable []
  exact htrace.exact (fun ev hev => (hkept ev hev).2) hadmitted

end Handlers

/-- Whatever happens around an admitted request, one row is inserted for it, with status
200 exactly if a result was produced, if and only if its run is fine: there are
candidates, the policy chooses among them, calls raise nothing but `Exception`s and
nothing after their first text, and everything else returns. -/
theorem loggedOnce_iff_fine (gw : RequestOrchestrator) (req : ChatRequest)
    (answer : List Event → (op : Op) → Reply op)
    (hreliable : ∀ past op, Reliable op (answer past op)) :
    (Admitted req (Program.run answer [] (handleComplete gw req).run).1 →
      (LoggedOnce false (Program.run answer [] (handleComplete gw req).run).1
        (Program.run answer [] (handleComplete gw req).run).2 ↔
        Fine (Program.run answer [] (handleComplete gw req).run).1)) ∧
    (Admitted req (Program.run answer [] (handleStream gw req).run).1 →
      (LoggedOnce true (Program.run answer [] (handleStream gw req).run).1
        (Program.run answer [] (handleStream gw req).run).2 ↔
        Fine (Program.run answer [] (handleStream gw req).run).1)) :=
  ⟨exact_run (handleComplete_trace (.of_allowed fun _ => trivial)) hreliable,
    exact_run (handleStream_trace (.of_allowed fun _ => trivial)) hreliable⟩

theorem reliable_failoverAnswer (op : Op) : Reliable op (failoverAnswer op) := by
  cases op <;> first | rfl | trivial

theorem loggedOnce_iff_fine_failover :
    LoggedOnce false
        (Program.run (fun _ => failoverAnswer) []
          (handleComplete ⟨true, fun _ => "digest"⟩ hiRequest).run).1
        (Program.run (fun _ => failoverAnswer) []
          (handleComplete ⟨true, fun _ => "digest"⟩ hiRequest).run).2 ↔
      Fine (Program.run (fun _ => failoverAnswer) []
        (handleComplete ⟨true, fun _ => "digest"⟩ hiRequest).run).1 :=
  (loggedOnce_iff_fine _ hiRequest (fun _ => failoverAnswer) fun _ => reliable_failoverAnswer).1
    ⟨Resilience.RateLimit.idA, List.mem_cons_of_mem _ List.mem_cons_self⟩

/-- Answers from a registry without a backend for the model. -/
def emptyRegistry : (op : Op) → Reply op
  | .candidates _ => .ok []
  | op => failoverAnswer op

/-- A request for a model that no backend serves is admitted and leaves no row. -/
theorem unavailable_not_logged :
    let run := Program.run (fun _ => emptyRegistry) []
      (handleComplete ⟨true, fun _ => "digest"⟩ hiRequest).run
    (∀ op, Reliable op (emptyRegistry op)) ∧ Admitted hiRequest run.1 ∧
      ¬ LoggedOnce false run.1 run.2 := by
  intro run
  refine ⟨fun op => ?_, ⟨Resilience.RateLimit.idA, List.mem_cons_of_mem _ List.mem_cons_self⟩, ?_⟩
  · cases op <;> first | rfl | trivial
  · rintro ⟨row, hrows, -⟩
    have hnone : rows run.1 = [] := by decide +kernel
    exact nomatch hnone.symm.trans hrows

end InferenceGateway.Orchestrator
