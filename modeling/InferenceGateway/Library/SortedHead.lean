import Mathlib.Data.List.Basic

/-!
# The first element of a sorted list

Sorting by a total preorder puts a least element first, and which one of several depends
on the order of the input: any of them can be it.
-/
namespace InferenceGateway.Library

variable {α : Type} {le : α → α → Bool} {l : List α} {a : α}

section Preorder
variable (trans : ∀ a b c, le a b → le b c → le a c) (total : ∀ a b, le a b || le b a)
include trans total

/-- The first element is a least one. -/
theorem le_of_head?_mergeSort (h : (l.mergeSort le).head? = some a) :
    a ∈ l ∧ ∀ b ∈ l, le a b := by
  have hmem : a ∈ l := List.mem_mergeSort.mp (List.mem_of_mem_head? h)
  refine ⟨hmem, fun b hb => ?_⟩
  have hsorted := List.pairwise_mergeSort trans total l
  have hb : b ∈ l.mergeSort le := List.mem_mergeSort.mpr hb
  cases hl : l.mergeSort le with
  | nil => simp [hl] at hb
  | cons c rest =>
    obtain rfl : c = a := by simpa [hl] using h
    rw [hl] at hsorted hb
    obtain rfl | hrest := List.mem_cons.mp hb
    · simpa using total b b
    · exact (List.pairwise_cons.mp hsorted).1 b hrest

/-- A least element that comes first stays first. -/
theorem head?_mergeSort_cons (h : ∀ b ∈ l, le a b) : ((a :: l).mergeSort le).head? = some a := by
  obtain ⟨before, after, hcons, hrest, hbefore⟩ := List.mergeSort_cons trans total a l
  cases before with
  | nil => simp [hcons]
  | cons b before =>
    have hb : b ∈ l := List.mem_mergeSort.mp (by rw [hrest]; exact List.mem_cons_self)
    have hnot := hbefore b List.mem_cons_self
    simp [h b hb] at hnot

/-- Of several least elements the first one of the input comes first. -/
theorem exists_split_of_head?_mergeSort (h : (l.mergeSort le).head? = some a) :
    ∃ before after, l = before ++ a :: after ∧ (∀ b ∈ before, ¬ le b a) ∧ ∀ b ∈ after, le a b := by
  induction l with
  | nil => simp at h
  | cons c l ih =>
    obtain ⟨first, last, hcons, hrest, hfirst⟩ := List.mergeSort_cons trans total c l
    cases first with
    | nil =>
      obtain rfl : c = a := by simpa [hcons] using h
      have hleast := (le_of_head?_mergeSort trans total h).2
      exact ⟨[], l, rfl, List.forall_mem_nil _, fun b hb => hleast b (List.mem_cons_of_mem _ hb)⟩
    | cons d first =>
      obtain rfl : d = a := by simpa [hcons] using h
      obtain ⟨before, after, rfl, hbefore, hafter⟩ := ih (by rw [hrest]; rfl)
      refine ⟨c :: before, after, rfl, List.forall_mem_cons.mpr ⟨?_, hbefore⟩, hafter⟩
      simpa using hfirst d List.mem_cons_self

end Preorder

end InferenceGateway.Library
