import Mathlib.Data.List.Count
import Mathlib.Data.List.Sort

/-!
# Ranks in sorted lists

An entry of a sorted list has at least as many entries at or below it as its index says,
and all entries from there on are at or above it. The sorted list is the same for every
order of the same values.
-/
namespace InferenceGateway.Library

variable {α : Type} [LinearOrder α] {l l' : List α} {i : Nat}

/-- An entry of a sorted list is at or above all up to it. -/
theorem succ_le_countP_le (h : l.SortedLE) (hi : i < l.length) :
    i + 1 ≤ l.countP fun x => x ≤ l[i] := by
  have hall : (l.take (i + 1)).countP (fun x => x ≤ l[i]) = (l.take (i + 1)).length := by
    refine List.countP_eq_length.mpr fun x hx => decide_eq_true ?_
    obtain ⟨j, hj, rfl⟩ := List.mem_take_iff_getElem.mp hx
    exact h.getElem_le_getElem_of_le (by omega)
  have hsub := (List.take_sublist (i + 1) l).countP_le (p := fun x => x ≤ l[i])
  rw [hall, List.length_take, Nat.min_eq_left hi] at hsub
  exact hsub

/-- And it is at or below all from there on. -/
theorem length_sub_le_countP_ge (h : l.SortedLE) (hi : i < l.length) :
    l.length - i ≤ l.countP fun x => l[i] ≤ x := by
  have hall : (l.drop i).countP (fun x => l[i] ≤ x) = (l.drop i).length := by
    refine List.countP_eq_length.mpr fun x hx => decide_eq_true ?_
    obtain ⟨j, hj, rfl⟩ := List.mem_drop_iff_getElem.mp hx
    exact h.getElem_le_getElem_of_le (Nat.le_add_right _ _)
  have hsub := (List.drop_sublist i l).countP_le (p := fun x => l[i] ≤ x)
  rw [hall, List.length_drop] at hsub
  exact hsub

theorem mergeSort_eq_of_perm (h : l.Perm l') :
    l.mergeSort (fun a b => a ≤ b) = l'.mergeSort fun a b => a ≤ b :=
  (((List.mergeSort_perm _ _).trans h).trans (List.mergeSort_perm _ _).symm).eq_of_sortedLE
    List.sortedLE_mergeSort List.sortedLE_mergeSort

/-- The ranks of an entry of the sorted list, among the values in any order. -/
theorem countP_mergeSort (h : i < (l.mergeSort fun a b => a ≤ b).length) :
    i + 1 ≤ l.countP (fun x => x ≤ (l.mergeSort fun a b => a ≤ b)[i]) ∧
      l.length - i ≤ l.countP fun x => (l.mergeSort fun a b => a ≤ b)[i] ≤ x := by
  have hperm := List.mergeSort_perm l fun a b => a ≤ b
  have hsorted := List.sortedLE_mergeSort (l := l)
  constructor
  · refine (succ_le_countP_le hsorted h).trans (hperm.countP_eq _).le
  · rw [← List.length_mergeSort l]
    exact (length_sub_le_countP_ge hsorted h).trans (hperm.countP_eq _).le

end InferenceGateway.Library
