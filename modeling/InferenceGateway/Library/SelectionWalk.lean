import Mathlib.Data.List.Basic
import Mathlib.Data.List.Nodup

/-!
# Walking a list by repeated selection

A selector picks an element of a list, all elements with its key are taken out, and so on.
With distinct keys and a selector that takes an end of the stably sorted list, the walk is
that sorted list, from that end.
-/
namespace InferenceGateway.Library

variable {α κ : Type} [DecidableEq κ] (key : α → κ) (select : List α → Option α)

/-- At most `fuel` selections. A walk ends when nothing is selected. -/
def selections : (fuel : Nat) → List α → List α
  | 0, _ => []
  | fuel + 1, l =>
    match select l with
    | none => []
    | some a => a :: selections fuel (l.filter fun b => key b ≠ key a)

/-- Select until nothing is left: no more selections than elements are needed. -/
def walkBySelection (l : List α) : List α := selections key select l.length l

variable {le : α → α → Bool} {l : List α} {a : α} {key select}

/-- The first part of a list, where the parts are told apart by a test. -/
theorem eq_of_append_eq (test : α → Bool) {x y x' y' : List α} (h : x ++ y = x' ++ y')
    (hx : ∀ a ∈ x, test a) (hy : ∀ a ∈ y, test a = false) (hx' : ∀ a ∈ x', test a)
    (hy' : ∀ a ∈ y', test a = false) : x = x' := by
  have hsplit : ∀ {u v : List α}, (∀ a ∈ u, test a) → (∀ a ∈ v, test a = false) →
      (u ++ v).filter test = u := fun {u v} hu hv => by
    rw [List.filter_append, List.filter_eq_self.mpr hu,
      List.filter_eq_nil_iff.mpr fun a ha => by simp [hv a ha], List.append_nil]
  rw [← hsplit hx hy, h, hsplit hx' hy']

theorem filter_ne_head {rest : List α} (h : ((a :: rest).map key).Nodup) :
    (a :: rest).filter (fun b => key b ≠ key a) = rest := by
  rw [List.map_cons, List.nodup_cons] at h
  rw [List.filter_cons_of_neg (by simp)]
  refine List.filter_eq_self.mpr fun b hb => ?_
  simpa using fun heq : key b = key a => h.1 (heq ▸ List.mem_map_of_mem hb)

/-- Always taking the first element in an order that does not depend on what has been taken
out walks the list in that order. -/
theorem walkBySelection_eq (order : List α → List α) (hperm : ∀ l, (order l).Perm l)
    (hfilter : ∀ (p : α → Bool) (l : List α), (order l).filter p = order (l.filter p))
    (hselect : ∀ l, select l = (order l).head?) (hkeys : (l.map key).Nodup) :
    walkBySelection key select l = order l := by
  unfold walkBySelection
  induction hn : l.length generalizing l with
  | zero =>
    obtain rfl := List.length_eq_zero_iff.mp hn
    exact (hperm []).eq_nil.symm
  | succ n ih =>
    have hlength := hn ▸ (hperm l).length_eq
    rw [selections, hselect]
    cases horder : order l with
    | nil => simp [horder] at hlength
    | cons a rest =>
      have hkeys' : ((a :: rest).map key).Nodup :=
        horder ▸ ((hperm l).map key).nodup_iff.mpr hkeys
      have hrest : order (l.filter fun b => key b ≠ key a) = rest := by
        rw [← hfilter, horder, filter_ne_head hkeys']
      have hshorter : (l.filter fun b => key b ≠ key a).length = n := by
        rw [← (hperm _).length_eq, hrest]
        simpa [horder] using hlength
      dsimp only [List.head?_cons]
      rw [ih (hkeys.sublist (List.filter_sublist.map key)) hshorter, hrest]

section Preorder
variable (trans : ∀ a b c, le a b → le b c → le a c) (total : ∀ a b, le a b || le b a)
include trans total

/-- Where the head goes in the sorted list: before everything that it is not greater than. -/
theorem mergeSort_cons_split (a : α) (l : List α) : ∃ before after,
    (a :: l).mergeSort le = before ++ a :: after ∧ l.mergeSort le = before ++ after ∧
      (∀ b ∈ before, le a b = false) ∧ ∀ b ∈ after, le a b := by
  obtain ⟨before, after, hcons, hrest, hbefore⟩ := List.mergeSort_cons trans total a l
  have hsorted := List.pairwise_mergeSort trans total (a :: l)
  rw [hcons] at hsorted
  refine ⟨before, after, hcons, hrest, fun b hb => by simpa using hbefore b hb, fun b hb => ?_⟩
  exact (List.pairwise_cons.mp (List.pairwise_append.mp hsorted).2.1).1 b hb

/-- Sorting stably and taking elements out can be done in either order. -/
theorem filter_mergeSort (p : α → Bool) (l : List α) :
    (l.mergeSort le).filter p = (l.filter p).mergeSort le := by
  induction l with
  | nil => simp
  | cons a l ih =>
    obtain ⟨before, after, hcons, hrest, hbefore, hafter⟩ := mergeSort_cons_split trans total a l
    rw [hrest, List.filter_append] at ih
    rw [hcons, List.filter_append]
    cases ha : p a with
    | false =>
      have hneg : ¬ p a = true := by simp [ha]
      rw [List.filter_cons_of_neg hneg, List.filter_cons_of_neg hneg, ih]
    | true =>
      rw [List.filter_cons_of_pos ha, List.filter_cons_of_pos ha]
      obtain ⟨before', after', hcons', hrest', hbefore', hafter'⟩ :=
        mergeSort_cons_split trans total a (l.filter p)
      have happend : before.filter p ++ after.filter p = before' ++ after' := ih.trans hrest'
      have hsame : before.filter p = before' := eq_of_append_eq (fun b => !le a b) happend
        (fun b hb => by simp [hbefore b (List.mem_of_mem_filter hb)])
        (fun b hb => by simp [hafter b (List.mem_of_mem_filter hb)])
        (fun b hb => by simp [hbefore' b hb]) (fun b hb => by simp [hafter' b hb])
      rw [hsame] at happend
      rw [hcons', hsame, List.append_cancel_left happend]

/-- What holds of elements in the order of the list still holds of those that tie. -/
theorem pairwise_tie_mergeSort {R : α → α → Prop} (h : l.Pairwise R) :
    (l.mergeSort le).Pairwise fun a b => le b a → R a b := by
  induction l with
  | nil => simp
  | cons a l ih =>
    obtain ⟨before, after, hcons, hrest, hbefore, -⟩ := mergeSort_cons_split trans total a l
    obtain ⟨hhead, htail⟩ := List.pairwise_cons.mp h
    have hold := ih htail
    rw [hrest] at hold
    obtain ⟨hold, hold', hacross⟩ := List.pairwise_append.mp hold
    rw [hcons]
    refine List.pairwise_append.mpr ⟨hold, List.pairwise_cons.mpr ⟨fun b hb _ => ?_, hold'⟩, ?_⟩
    · exact hhead b (List.mem_mergeSort.mp (hrest ▸ List.mem_append_right _ hb))
    · intro b hb c hc
      obtain rfl | hc := List.mem_cons.mp hc
      · intro hle
        simp [hbefore b hb] at hle
      · exact hacross b hb c hc

/-- Always taking a least element, the first of several, walks the sorted list. -/
theorem walkBySelection_head (hkeys : (l.map key).Nodup) :
    walkBySelection key (fun l => (l.mergeSort le).head?) l = l.mergeSort le :=
  walkBySelection_eq (fun l => l.mergeSort le) (fun l => List.mergeSort_perm l le)
    (filter_mergeSort trans total) (fun _ => rfl) hkeys

/-- Always taking a greatest element, the last of several, walks the sorted list backwards. -/
theorem walkBySelection_getLast (hkeys : (l.map key).Nodup) :
    walkBySelection key (fun l => (l.mergeSort le).getLast?) l = (l.mergeSort le).reverse := by
  refine walkBySelection_eq (fun l => (l.mergeSort le).reverse) (fun l => ?_)
    (fun p l => ?_) (fun l => ?_) hkeys
  · exact (List.reverse_perm _).trans (List.mergeSort_perm l le)
  · rw [List.filter_reverse, filter_mergeSort trans total]
  · rw [List.head?_reverse]

end Preorder

end InferenceGateway.Library
