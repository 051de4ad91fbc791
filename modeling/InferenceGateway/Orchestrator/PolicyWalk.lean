import InferenceGateway.Orchestrator.Traces
import InferenceGateway.Routing.Ranking

/-!
# The failover loop follows the policy's ranking

Whatever becomes of the candidates, a request selects them in the order of the policy's
walk over the list that the registry has offered, from its start.
-/
namespace InferenceGateway.Orchestrator
open Library Library.Action Routing

variable {α : Type}

def choiceOf : Event → Option Backend
  | ⟨.select _ _, .ok chosen⟩ => some chosen
  | _ => none

/-- The backends that the policy has chosen, in order. -/
def chosen (trace : List Event) : List Backend := trace.filterMap choiceOf

/-- The policy answers with what this selector picks. -/
def PolicyAnswers (select : List Backend → Option Backend) : (op : Op) → Reply op → Prop
  | .select offered _, reply => ∀ b, reply = .ok b → select offered = some b
  | _, _ => True

def Op.isSelect : Op → Bool
  | .select _ _ => true
  | _ => false

/-- Operations of a kind that leaves the policy alone. -/
theorem no_select_of {P : Op → Prop} (hP : ∀ offered features, ¬ P (.select offered features))
    {trace : List Event} (h : ∀ ev ∈ trace, P ev.1) : ∀ ev ∈ trace, ev.1.isSelect = false := by
  intro ev hev
  have hop := h ev hev
  generalize ev.1 = op at hop ⊢
  cases op <;> first | rfl | exact absurd hop (hP _ _)

theorem chosen_eq_nil {trace : List Event} (h : ∀ ev ∈ trace, ev.1.isSelect = false) :
    chosen trace = [] := by
  refine List.filterMap_eq_nil_iff.mpr fun ev hev => ?_
  obtain ⟨op, reply⟩ := ev
  have hop := h _ hev
  cases op <;> first | rfl | simp [Op.isSelect] at hop

theorem chosen_cons_cons (offered : List Backend) (features : RequestFeatures) (b : Backend)
    (id : Uuid) (allowed : Reply (.allow id)) (trace : List Event) :
    chosen (⟨.select offered features, .ok b⟩ :: ⟨.allow id, allowed⟩ :: trace) =
      b :: chosen trace := rfl

theorem chosen_append (trace trace' : List Event) :
    chosen (trace ++ trace') = chosen trace ++ chosen trace' := List.filterMap_append

section Passes
variable {req : ChatRequest} {streaming : Bool} {backend : Backend} {client : Client}

theorem Logs.no_select {book : Op → Prop} {tail : List Event → Except Raised α → Prop}
    {status : Int} {trace : List Event} {r : Except Raised α} (h : Logs book tail status trace r)
    (hbook : ∀ offered features, ¬ book (.select offered features))
    (htail : ∀ trace r, tail trace r → ∀ ev ∈ trace, ev.1.isSelect = false) :
    ∀ ev ∈ trace, ev.1.isSelect = false := by
  refine Logs.forall_mem (P := fun op => op.isSelect = false) h (fun op hop => ?_) (fun _ => rfl)
    htail
  cases op <;> first | rfl | exact absurd hop (hbook _ _)

theorem Tail.no_select {trace : List Event} {r : Except Raised α} (h : Tail streaming trace r) :
    ∀ ev ∈ trace, ev.1.isSelect = false :=
  no_select_of (P := TailOp streaming) (fun _ _ => id) h.ops

/-- A pass asks the policy only at its start. -/
theorem BodyTrace.no_select {trace : List Event} {r : Except Raised (Pass α)}
    (h : BodyTrace req streaming backend client trace r) :
    ∀ ev ∈ trace, ev.1.isSelect = false := by
  have hcalls : ∀ {call : List Event} {ended : Except Raised Unit},
      CallTrace backend client call ended → ∀ ev ∈ call, ev.1.isSelect = false :=
    fun hcall => no_select_of (P := CallOp backend client) (fun _ _ => id) hcall.ops
  cases h with
  | cancelled hcall _ => exact hcalls hcall
  | failed hcall _ hops _ =>
    exact List.forall_mem_append.mpr ⟨hcalls hcall,
      no_select_of (P := FailureOp backend) (fun _ _ => id) hops⟩
  | answered hcall hlogs _ =>
    exact List.forall_mem_append.mpr ⟨hcalls hcall,
      hlogs.no_select (fun _ _ => id) fun _ _ htail => htail.no_select⟩

/-- Once nobody is left the policy is not asked. -/
theorem no_select_of_exhausted {trace : List Event} {r : Except Raised Unit}
    (h : Logs ClockOp FailoverTail 503 trace r) : ∀ ev ∈ trace, ev.1.isSelect = false :=
  h.no_select (fun _ _ => id) fun _ _ htail =>
    no_select_of (P := FailoverMetric) (fun _ _ => id) htail.ops

/-- The candidates that are left, without the chosen one. -/
theorem map_fst_without (id : Uuid) (remaining : List (Backend × Client)) :
    (without id remaining).map Prod.fst =
      (remaining.map Prod.fst).filter fun b => b.id ≠ id :=
  (List.filter_map (f := Prod.fst) (p := fun b : Backend => decide (b.id ≠ id))).symm

end Passes

section Walks
variable {req : ChatRequest} {streaming : Bool} {select : List Backend → Option Backend}
  {remaining : List (Backend × Client)} {b : Backend} {later : List Backend} {fuel : Nat}

/-- A choice is the next one of the policy's walk, and the rest of its walk goes on without
what was chosen. -/
theorem cons_isPrefix_selections (hempty : select [] = none) (hfuel : remaining.length ≤ fuel)
    (hselect : select (remaining.map Prod.fst) = some b)
    (hlater : ∀ fuel, (without b.id remaining).length ≤ fuel → later <+:
      selections Backend.id select fuel ((without b.id remaining).map Prod.fst))
    (hshorter : (without b.id remaining).length < remaining.length ∨ later = []) :
    b :: later <+: selections Backend.id select fuel (remaining.map Prod.fst) := by
  have hne : remaining ≠ [] := by
    rintro rfl
    simp [hempty] at hselect
  have hpos := List.length_pos_of_ne_nil hne
  obtain ⟨fuel, rfl⟩ : ∃ n, fuel = n + 1 := ⟨fuel - 1, by omega⟩
  rw [selections, hselect]
  refine (List.prefix_cons_inj b).mpr ?_
  obtain hlt | rfl := hshorter
  · rw [← map_fst_without]
    exact hlater fuel (by omega)
  · exact List.nil_prefix

theorem WalkTrace.chosen_isPrefix (hempty : select [] = none) {err : Option Raised}
    {trace : List Event} {r : Except Raised α} (h : WalkTrace req streaming remaining err trace r)
    (hanswers : ∀ ev ∈ trace, PolicyAnswers select ev.1 ev.2) (hfuel : remaining.length ≤ fuel) :
    chosen trace <+: selections Backend.id select fuel (remaining.map Prod.fst) := by
  have hlast : ∀ {rem : List (Backend × Client)} {b : Backend} {fuel : Nat}, rem.length ≤ fuel →
      select (rem.map Prod.fst) = some b →
      [b] <+: selections Backend.id select fuel (rem.map Prod.fst) := fun hfuel hselect =>
    cons_isPrefix_selections hempty hfuel hselect (fun _ _ => List.nil_prefix) (.inr rfl)
  induction h generalizing fuel with
  | exhausted hlogs =>
    rw [chosen_eq_nil (no_select_of_exhausted hlogs)]
    exact List.nil_prefix
  | unselected => exact List.nil_prefix
  | stopped _ => exact hlast hfuel (hanswers _ List.mem_cons_self _ rfl)
  | unasked _ => exact hlast hfuel (hanswers _ List.mem_cons_self _ rfl)
  | rejected hpair _ ih =>
    have hselect := hanswers _ List.mem_cons_self _ rfl
    simp only [List.forall_mem_cons] at hanswers
    rw [chosen_cons_cons]
    exact cons_isPrefix_selections hempty hfuel hselect (fun _ hfuel => ih hanswers.2.2 hfuel)
      (.inl (length_without_lt hpair))
  | raised _ hbody =>
    rw [chosen_cons_cons, chosen_eq_nil hbody.no_select]
    exact hlast hfuel (hanswers _ List.mem_cons_self _ rfl)
  | done _ hbody =>
    rw [chosen_cons_cons, chosen_eq_nil hbody.no_select]
    exact hlast hfuel (hanswers _ List.mem_cons_self _ rfl)
  | next hpair hbody _ ih =>
    have hselect := hanswers _ List.mem_cons_self _ rfl
    simp only [List.forall_mem_cons, List.forall_mem_append] at hanswers
    rw [chosen_cons_cons, chosen_append, chosen_eq_nil hbody.no_select, List.nil_append]
    exact cons_isPrefix_selections hempty hfuel hselect (fun _ hfuel => ih hanswers.2.2.2 hfuel)
      (.inl (length_without_lt hpair))

theorem Lead.no_select {trace : List Event} (h : Lead req trace) :
    ∀ ev ∈ trace, ev.1.isSelect = false := by
  obtain ⟨start, reservation, look, rfl, hops, -⟩ := h
  exact List.forall_mem_cons.mpr ⟨rfl, List.forall_mem_cons.mpr ⟨rfl,
    no_select_of (P := LookupOp req) (fun _ _ => id) hops⟩⟩

/-- The choices of a request follow the policy's walk over the candidates it was offered. -/
theorem RequestTrace.chosen_isPrefix (hempty : select [] = none) {trace : List Event}
    {r : Except Raised α} (h : RequestTrace req streaming trace r)
    (hanswers : ∀ ev ∈ trace, PolicyAnswers select ev.1 ev.2) :
    chosen trace = [] ∨ ∃ offered, ⟨.candidates req.model, .ok offered⟩ ∈ trace ∧
      chosen trace <+: visits select (offered.map Prod.fst) := by
  cases h with
  | unread => exact .inl rfl
  | unreserved => exact .inl rfl
  | denied => exact .inl rfl
  | interrupted hlead hops _ =>
    refine .inl (chosen_eq_nil (List.forall_mem_append.mpr ⟨hlead.no_select, ?_⟩))
    refine no_select_of (P := fun op => LookupOp req op ∨ op = .candidates req.model) ?_ hops
    simp [LookupOp]
  | hit hlead hlogs =>
    exact .inl (chosen_eq_nil (List.forall_mem_append.mpr ⟨hlead.no_select,
      hlogs.no_select (fun _ _ => id) fun _ _ htail => htail.no_select⟩))
  | unavailable hlead =>
    exact .inl (chosen_eq_nil (List.forall_mem_append.mpr ⟨hlead.no_select, by simp [Op.isSelect]⟩))
  | @walked lead trace offered r hlead _ hwalk =>
    refine .inr ⟨offered, by simp, ?_⟩
    simp only [List.forall_mem_append, List.forall_mem_cons] at hanswers
    rw [chosen_append, chosen_eq_nil hlead.no_select]
    refine hwalk.chosen_isPrefix hempty hanswers.2.2 ?_
    rw [List.length_map]

/-- Both handlers walk as their policy ranks. -/
theorem handlers_follow_policy (gw : RequestOrchestrator) (hempty : select [] = none) :
    wp (.expecting (PolicyAnswers select)) (handleComplete gw req) (fun trace _ =>
      chosen trace = [] ∨ ∃ offered, ⟨.candidates req.model, .ok offered⟩ ∈ trace ∧
        chosen trace <+: visits select (offered.map Prod.fst)) ∧
    wp (.expecting (PolicyAnswers select)) (handleStream gw req) (fun trace _ =>
      chosen trace = [] ∨ ∃ offered, ⟨.candidates req.model, .ok offered⟩ ∈ trace ∧
        chosen trace <+: visits select (offered.map Prod.fst)) := by
  have hadmits : Admits (.expecting (PolicyAnswers select)) gw req :=
    .of_allowed fun _ => trivial
  constructor
  · exact Program.wp_mono (Program.wp_kept (handleComplete_trace hadmits)) fun _ _ h =>
      h.2.chosen_isPrefix hempty fun ev hev => (h.1 ev hev).2
  · exact Program.wp_mono (Program.wp_kept (handleStream_trace hadmits)) fun _ _ h =>
      h.2.chosen_isPrefix hempty fun ev hev => (h.1 ev hev).2

/-- Neither policy picks anything from an empty list. -/
theorem select_nil (policy : CostTieredPolicy) (complexity : ℚ) (p95 : Uuid → Option ℚ) :
    policy.select [] complexity = none ∧ latencyAwareSelect p95 [] = none := by
  simp [CostTieredPolicy.select, latencyAwareSelect]

end Walks

end InferenceGateway.Orchestrator
