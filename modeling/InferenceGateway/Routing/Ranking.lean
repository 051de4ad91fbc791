import InferenceGateway.Backends.Registry
import InferenceGateway.Library.SelectionWalk
import InferenceGateway.Routing.Policies
import Mathlib.Tactic.NormNum

/-!
# The order in which a policy walks the candidates

The failover loop asks the policy again and again and takes the chosen backend out. Both
policies sort stably and take an end of the result, so that the walk is the sorted list
from that end. From its far end, candidates that tie come last one first.
-/
namespace InferenceGateway.Routing
open Library

/-- All candidates in the order in which the policy selects them. -/
abbrev visits (select : List Backend → Option Backend) (candidates : List Backend) :
    List Backend := walkBySelection Backend.id select candidates

/-- No candidate comes before one with a lower priority value. -/
def InPriorityOrder (candidates : List Backend) : Prop :=
  candidates.Pairwise fun a b => a.priority ≤ b.priority

/-- The registry lists the candidates of a model in priority order. -/
theorem inPriorityOrder_candidates {Error : Type} {clientFactory : Backend → Except Error Client}
    {registry registry' : Backends.BackendRegistry} {table : List Backend}
    {oldClients : List Client}
    (hinstall : registry.install clientFactory table = .ok (registry', oldClients))
    {model : String} {pairs : List (Backend × Client)}
    (hpairs : registry'.candidates model = some pairs) : InPriorityOrder (pairs.map Prod.fst) := by
  rw [Backends.BackendRegistry.map_fst_candidates hpairs]
  unfold Backends.BackendRegistry.install at hinstall
  split at hinstall
  · simp at hinstall
  · obtain ⟨rfl, -⟩ := Prod.mk.inj (Except.ok.inj hinstall)
    refine (List.pairwise_mergeSort ?_ ?_ _).imp fun hle => of_decide_eq_true hle
    · intro a b c hab hbc
      simp only [decide_eq_true_eq] at hab hbc ⊢
      omega
    · intro a b
      simp only [Bool.or_eq_true, decide_eq_true_eq]
      omega

/-- Each of them once, if no two rows of the table share their id. -/
theorem nodup_candidates {Error : Type} {clientFactory : Backend → Except Error Client}
    {registry registry' : Backends.BackendRegistry} {table : List Backend}
    {oldClients : List Client}
    (hinstall : registry.install clientFactory table = .ok (registry', oldClients))
    (htable : (table.map Backend.id).Nodup) {model : String} {pairs : List (Backend × Client)}
    (hpairs : registry'.candidates model = some pairs) :
    ((pairs.map Prod.fst).map Backend.id).Nodup := by
  obtain ⟨pairs', hpairs', hperm⟩ := Backends.BackendRegistry.reflects_install hinstall model
  obtain rfl := Option.some.inj (hpairs.symm.trans hpairs')
  exact (hperm.map Backend.id).nodup_iff.mpr (htable.sublist (List.filter_sublist.map Backend.id))

variable {candidates : List Backend}

/-! ## By cost -/

def cheaper (a b : Backend) : Bool := combinedCost a ≤ combinedCost b

theorem cheaper_trans (a b c : Backend) (hab : cheaper a b) (hbc : cheaper b c) : cheaper a c := by
  simp only [cheaper, decide_eq_true_eq] at *
  exact hab.trans hbc

theorem cheaper_total (a b : Backend) : cheaper a b || cheaper b a := by
  simp [cheaper, le_total]

/-- The walk is the candidates by cost, from the cheap end or backwards from the dear one. -/
theorem visits_costTiered (policy : CostTieredPolicy) (complexity : ℚ)
    (hids : (candidates.map Backend.id).Nodup) :
    visits (policy.select · complexity) candidates =
      if complexity < policy.threshold then candidates.mergeSort cheaper
      else (candidates.mergeSort cheaper).reverse := by
  split
  · rename_i hsimple
    have hselect : (policy.select · complexity) =
        fun l => (l.mergeSort cheaper).head? := by
      funext l
      exact if_pos hsimple
    rw [hselect]
    exact walkBySelection_head cheaper_trans cheaper_total hids
  · rename_i hcomplex
    have hselect : (policy.select · complexity) =
        fun l => (l.mergeSort cheaper).getLast? := by
      funext l
      exact if_neg hcomplex
    rw [hselect]
    exact walkBySelection_getLast cheaper_trans cheaper_total hids

/-- Every candidate once, by cost as the complexity asks, and by priority where costs tie. -/
structure WalksByCost (policy : CostTieredPolicy) (complexity : ℚ)
    (candidates order : List Backend) : Prop where
  once : order.Perm candidates
  cheapest_first : complexity < policy.threshold →
    order.Pairwise fun a b => combinedCost a ≤ combinedCost b
  dearest_first : ¬ complexity < policy.threshold →
    order.Pairwise fun a b => combinedCost b ≤ combinedCost a
  ties : order.Pairwise fun a b => combinedCost a = combinedCost b → a.priority ≤ b.priority

/-- Candidates that cost the same have the same priority. -/
def TiesShareAPriority (candidates : List Backend) : Prop :=
  ∀ a ∈ candidates, ∀ b ∈ candidates, combinedCost a = combinedCost b → a.priority = b.priority

theorem pairwise_cheaper (candidates : List Backend) :
    (candidates.mergeSort cheaper).Pairwise fun a b => combinedCost a ≤ combinedCost b :=
  (List.pairwise_mergeSort cheaper_trans cheaper_total candidates).imp fun hle =>
    of_decide_eq_true hle

/-- Sorted by cost, candidates that tie stay in priority order. -/
theorem ties_cheaper (hpriority : InPriorityOrder candidates) :
    (candidates.mergeSort cheaper).Pairwise fun a b =>
      combinedCost a = combinedCost b → a.priority ≤ b.priority :=
  (pairwise_tie_mergeSort cheaper_trans cheaper_total hpriority).imp fun h heq =>
    h (by simp [cheaper, heq])

/-- Read backwards, they stay in it only where their priorities are the same. -/
theorem ties_reverse_iff (hpriority : InPriorityOrder candidates) :
    ((candidates.mergeSort cheaper).reverse.Pairwise fun a b =>
      combinedCost a = combinedCost b → a.priority ≤ b.priority) ↔
      TiesShareAPriority candidates := by
  rw [List.pairwise_reverse]
  constructor
  · intro hback
    have hsame : (candidates.mergeSort cheaper).Pairwise fun a b =>
        combinedCost a = combinedCost b → a.priority = b.priority :=
      hback.imp₂ (fun a b hba hab heq => le_antisymm (hab heq) (hba heq.symm))
        (ties_cheaper hpriority)
    have hall := List.Pairwise.forall_of_forall_of_flip (fun _ _ _ => rfl) hsame
      (hsame.imp fun h heq => (h heq.symm).symm)
    intro a ha b hb
    exact hall (List.mem_mergeSort.mpr ha) (List.mem_mergeSort.mpr hb)
  · intro hsame
    refine List.pairwise_of_forall_mem_list fun a ha b hb heq => ?_
    exact (hsame b (List.mem_mergeSort.mp hb) a (List.mem_mergeSort.mp ha) heq).le

/-- The cost-tiered walk over candidates in priority order visits each of them once and in
the order of their costs, and keeps the priority order where costs tie exactly if the
prompt is below the threshold or candidates that tie have the same priority. -/
theorem costTiered_walk_iff (policy : CostTieredPolicy) (complexity : ℚ)
    (candidates : List Backend) (hids : (candidates.map Backend.id).Nodup)
    (hpriority : InPriorityOrder candidates) :
    WalksByCost policy complexity candidates (visits (policy.select · complexity) candidates) ↔
      complexity < policy.threshold ∨ TiesShareAPriority candidates := by
  have hperm := List.mergeSort_perm candidates cheaper
  rw [visits_costTiered policy complexity hids]
  by_cases hsimple : complexity < policy.threshold
  · rw [if_pos hsimple]
    exact iff_of_true ⟨hperm, fun _ => pairwise_cheaper candidates,
      fun hcomplex => absurd hsimple hcomplex, ties_cheaper hpriority⟩ (.inl hsimple)
  · rw [if_neg hsimple]
    constructor
    · intro h
      exact .inr ((ties_reverse_iff hpriority).mp h.ties)
    · intro h
      exact ⟨(List.reverse_perm _).trans hperm, fun hbelow => absurd hbelow hsimple,
        fun _ => List.pairwise_reverse.mpr (pairwise_cheaper candidates),
        (ties_reverse_iff hpriority).mpr (h.resolve_left hsimple)⟩

/-- Two backends without costs. -/
def freeOfCharge : List Backend :=
  [⟨0, "first", .ollama, "e", "m", 100, true, 0, 0⟩,
   ⟨1, "second", .ollama, "e", "m", 200, true, 0, 0⟩]

theorem costTiered_walk_simple : WalksByCost ⟨1 / 2⟩ 0 freeOfCharge
    (visits (CostTieredPolicy.select ⟨1 / 2⟩ · 0) freeOfCharge) :=
  (costTiered_walk_iff ⟨1 / 2⟩ 0 freeOfCharge (by decide)
    (by simp [InPriorityOrder, freeOfCharge])).mpr (.inl (by norm_num))

/-- A complex prompt goes to the second of them first. -/
theorem costTiered_walk_complex : ¬ WalksByCost ⟨1 / 2⟩ 1 freeOfCharge
    (visits (CostTieredPolicy.select ⟨1 / 2⟩ · 1) freeOfCharge) := by
  intro h
  have hcheap : ∀ a ∈ freeOfCharge, combinedCost a = 0 := by
    decide +kernel
  have hsorted : freeOfCharge.mergeSort cheaper = freeOfCharge :=
    List.mergeSort_of_pairwise (List.pairwise_of_forall_mem_list fun a ha b hb => by
      simp [cheaper, hcheap a ha, hcheap b hb])
  have hties := h.ties
  rw [visits_costTiered _ _ (by decide), if_neg (by norm_num), hsorted] at hties
  simp [freeOfCharge, combinedCost] at hties

/-! ## By latency -/

/-- No data comes before every number. -/
def coldLe : Option ℚ → Option ℚ → Bool
  | none, _ => true
  | some _, none => false
  | some x, some y => x ≤ y

theorem coldLe_trans {x y z : Option ℚ} (hxy : coldLe x y) (hyz : coldLe y z) : coldLe x z := by
  cases x <;> cases y <;> cases z <;> simp_all [coldLe]
  exact hxy.trans hyz

theorem coldLe_total (x y : Option ℚ) : coldLe x y || coldLe y x := by
  cases x <;> cases y <;> simp [coldLe, le_total]

/-- The mixed sort key says the same. -/
theorem keyLe_latencyKey (x y : Option ℚ) : keyLe (latencyKey x) (latencyKey y) = coldLe x y := by
  cases x with
  | none => cases y <;> rfl
  | some x => cases y <;> rfl

section Latency
variable (p95 : Uuid → Option ℚ)

/-- A backend without data comes before every other, then the lower p95. -/
def coldFirst (a b : Backend) : Bool := coldLe (p95 a.id) (p95 b.id)

/-- `LatencyAwarePolicy.select` without the shortcut for a single candidate. -/
def rankedSelect (candidates : List Backend) : Option Backend :=
  ((candidates.map fun b => (p95 b.id, b)).mergeSort fun a b =>
    keyLe (latencyKey a.1) (latencyKey b.1)).head?.map Prod.snd

variable {p95}

theorem coldFirst_trans (a b c : Backend) (hab : coldFirst p95 a b) (hbc : coldFirst p95 b c) :
    coldFirst p95 a c := coldLe_trans hab hbc

theorem coldFirst_total (a b : Backend) : coldFirst p95 a b || coldFirst p95 b a :=
  coldLe_total _ _

theorem rankedSelect_eq (candidates : List Backend) :
    rankedSelect p95 candidates = (candidates.mergeSort (coldFirst p95)).head? := by
  have hsorted : ((candidates.map fun b => (p95 b.id, b)).mergeSort fun a b =>
      keyLe (latencyKey a.1) (latencyKey b.1)).map Prod.snd =
        ((candidates.map fun b => (p95 b.id, b)).map Prod.snd).mergeSort (coldFirst p95) := by
    refine List.map_mergeSort fun x hx y hy => ?_
    obtain ⟨a, -, rfl⟩ := List.mem_map.mp hx
    obtain ⟨b, -, rfl⟩ := List.mem_map.mp hy
    exact keyLe_latencyKey _ _
  have hsame : (candidates.map fun b => (p95 b.id, b)).map Prod.snd = candidates := by
    rw [List.map_map]
    exact List.map_id candidates
  rw [rankedSelect, ← List.head?_map, hsorted, hsame]

/-- The shortcut selects what the sort would. -/
theorem latencyAwareSelect_eq (candidates : List Backend) :
    latencyAwareSelect p95 candidates = rankedSelect p95 candidates := by
  unfold latencyAwareSelect
  split
  · rename_i hone
    obtain ⟨b, rfl⟩ := List.length_eq_one_iff.mp hone
    simp [rankedSelect]
  · rfl

/-- Every candidate once, cold ones first and then by p95, and by priority where they tie. -/
structure RanksByLatency (p95 : Uuid → Option ℚ) (candidates order : List Backend) : Prop where
  once : order.Perm candidates
  cold_first : order.Pairwise fun a b => p95 a.id = none ∨ (p95 b.id).isSome
  ascending : order.Pairwise fun a b => ∀ x y, p95 a.id = some x → p95 b.id = some y → x ≤ y
  ties : order.Pairwise fun a b => p95 a.id = p95 b.id → a.priority ≤ b.priority

theorem ranksByLatency_mergeSort (hpriority : InPriorityOrder candidates) :
    RanksByLatency p95 candidates (candidates.mergeSort (coldFirst p95)) := by
  have hsorted : (candidates.mergeSort (coldFirst p95)).Pairwise fun a b => coldFirst p95 a b :=
    List.pairwise_mergeSort coldFirst_trans coldFirst_total candidates
  refine ⟨List.mergeSort_perm _ _, hsorted.imp ?_, hsorted.imp ?_, ?_⟩
  · intro a b hle
    unfold coldFirst at hle
    cases ha : p95 a.id <;> cases hb : p95 b.id <;> simp_all [coldLe]
  · intro a b hle x y hx hy
    simpa [coldFirst, coldLe, hx, hy] using hle
  · refine (pairwise_tie_mergeSort coldFirst_trans coldFirst_total hpriority).imp ?_
    intro a b h heq
    refine h ?_
    have hself := coldLe_total (p95 a.id) (p95 a.id)
    rw [Bool.or_self] at hself
    rwa [coldFirst, ← heq]

/-- The latency-aware walk over candidates in priority order is their stable sort, cold ones
first and then by ascending p95, and is the same without the shortcut. -/
theorem latencyAware_walk (p95 : Uuid → Option ℚ) (candidates : List Backend)
    (hids : (candidates.map Backend.id).Nodup) (hpriority : InPriorityOrder candidates) :
    visits (latencyAwareSelect p95) candidates = candidates.mergeSort (coldFirst p95) ∧
    RanksByLatency p95 candidates (visits (latencyAwareSelect p95) candidates) ∧
    visits (latencyAwareSelect p95) candidates = visits (rankedSelect p95) candidates := by
  have hshortcut : latencyAwareSelect p95 = rankedSelect p95 := funext latencyAwareSelect_eq
  have hsort : rankedSelect p95 = fun l => (l.mergeSort (coldFirst p95)).head? :=
    funext rankedSelect_eq
  have hwalk : visits (latencyAwareSelect p95) candidates =
      candidates.mergeSort (coldFirst p95) := by
    rw [hshortcut, hsort]
    exact walkBySelection_head coldFirst_trans coldFirst_total hids
  refine ⟨hwalk, ?_, by rw [hshortcut]⟩
  rw [hwalk]
  exact ranksByLatency_mergeSort hpriority

/-- The second backend is cold. -/
theorem latencyAware_walk_cold :
    RanksByLatency (fun id => if id = 0 then some 120 else none) freeOfCharge
      (visits (latencyAwareSelect fun id => if id = 0 then some 120 else none) freeOfCharge) :=
  (latencyAware_walk _ freeOfCharge (by decide) (by simp [InPriorityOrder, freeOfCharge])).2.1

end Latency

end InferenceGateway.Routing
