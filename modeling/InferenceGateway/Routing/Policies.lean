import InferenceGateway.Domain
import InferenceGateway.Library.Double

/-!
# Routing policies

Both policies sort the candidates they are given, stably, and take an end of the result.
On an empty list they would index out of range, which is `none` here.
-/
namespace InferenceGateway.Routing
open Library

structure CostTieredPolicy where
  threshold : ℚ

/-- `b.cost_per_1k_in + b.cost_per_1k_out`, a sum of doubles. -/
def combinedCost (b : Backend) : ℚ := double (double b.costPer1kIn + double b.costPer1kOut)

/-- Cheapest first for simple prompts, most expensive for complex ones. -/
def CostTieredPolicy.select (policy : CostTieredPolicy) (candidates : List Backend)
    (complexity : ℚ) : Option Backend :=
  let byCost := candidates.mergeSort fun a b => combinedCost a ≤ combinedCost b
  if complexity < policy.threshold then byCost.head? else byCost.getLast?

/-- The sort key `(pair[0] is not None, pair[0] or 0.0)`: no data sorts first. -/
def latencyKey (p95 : Option ℚ) : Bool × ℚ := (p95.isSome, p95.getD 0)

def keyLe (a b : Bool × ℚ) : Bool := a.1 < b.1 || (a.1 == b.1 && a.2 ≤ b.2)

/-- Lowest rolling p95 first. `p95` is what the latency tracker answers for an id. -/
def latencyAwareSelect (p95 : Uuid → Option ℚ) (candidates : List Backend) : Option Backend :=
  if candidates.length = 1 then candidates.head?
  else
    let scored := candidates.map fun b => (p95 b.id, b)
    let sorted := scored.mergeSort fun a b => keyLe (latencyKey a.1) (latencyKey b.1)
    sorted.head?.map Prod.snd

theorem mergeSort_ne_nil {α : Type} {l : List α} (h : l ≠ []) (le : α → α → Bool) :
    l.mergeSort le ≠ [] := fun hnil =>
  h (List.length_eq_zero_iff.mp (by rw [← List.length_mergeSort l, hnil, List.length_nil]))

variable {candidates : List Backend}

/-- On a non-empty list the cost-tiered policy returns a member of it. -/
theorem CostTieredPolicy.select_mem (policy : CostTieredPolicy) (h : candidates ≠ [])
    (complexity : ℚ) : ∃ b ∈ candidates, policy.select candidates complexity = some b := by
  have hne := mergeSort_ne_nil h fun a b => combinedCost a ≤ combinedCost b
  unfold CostTieredPolicy.select
  dsimp only
  split
  · exact ⟨_, List.mem_mergeSort.mp (List.head_mem hne), List.head?_eq_some_head hne⟩
  · exact ⟨_, List.mem_mergeSort.mp (List.getLast_mem hne), List.getLast?_eq_some_getLast hne⟩

/-- So does the latency-aware policy. -/
theorem latencyAwareSelect_mem (p95 : Uuid → Option ℚ) (h : candidates ≠ []) :
    ∃ b ∈ candidates, latencyAwareSelect p95 candidates = some b := by
  have hscored : candidates.map (fun b => (p95 b.id, b)) ≠ [] := by simpa using h
  have hne := mergeSort_ne_nil hscored fun a b => keyLe (latencyKey a.1) (latencyKey b.1)
  obtain ⟨b, hb, heq⟩ := List.mem_map.mp (List.mem_mergeSort.mp (List.head_mem hne))
  unfold latencyAwareSelect
  split
  · exact ⟨_, List.head_mem h, List.head?_eq_some_head h⟩
  · refine ⟨b, hb, ?_⟩
    dsimp only
    rw [List.head?_eq_some_head hne, Option.map_some, ← heq]

end InferenceGateway.Routing
