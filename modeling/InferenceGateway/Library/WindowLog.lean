import Mathlib.Algebra.Order.BigOperators.Group.List
import Mathlib.Algebra.Order.Ring.Int
import Mathlib.Data.List.Nodup
import Mathlib.Data.List.Perm.Subperm
import Mathlib.Order.Defs.LinearOrder

/-!
# Logs of stamped charges

A sliding-window log holds one charge per id: when it was last stamped and what it
costs. Entries are trimmed by stamp and settled by id, which restamps them. The lemmas
say what is in the log after each operation, and compare the totals of two logs by
comparing their entries.
-/
namespace InferenceGateway.Library

structure Charge (ι τ κ : Type) where
  id : ι
  stamp : τ
  cost : κ
  deriving DecidableEq, Repr

namespace WindowLog

variable {ι τ κ : Type}

def ids (log : List (Charge ι τ κ)) : List ι := log.map Charge.id

def costs (log : List (Charge ι τ κ)) : List κ := log.map Charge.cost

/-- Keep the charges stamped after the cutoff. -/
def trim [LT τ] [DecidableLT τ] (cutoff : τ) (log : List (Charge ι τ κ)) :
    List (Charge ι τ κ) :=
  log.filter fun c => cutoff < c.stamp

/-- Give the charge of an id a new stamp and cost. -/
def settle [DecidableEq ι] (id : ι) (stamp : τ) (cost : κ) (log : List (Charge ι τ κ)) :
    List (Charge ι τ κ) :=
  log.map fun c => if c.id = id then ⟨id, stamp, cost⟩ else c

variable {log log' : List (Charge ι τ κ)} {c c' : Charge ι τ κ}

theorem mem_ids {id : ι} : id ∈ ids log ↔ ∃ c ∈ log, c.id = id := List.mem_map

theorem mem_trim [LT τ] [DecidableLT τ] {cutoff : τ} :
    c ∈ trim cutoff log ↔ c ∈ log ∧ cutoff < c.stamp := by
  simp [trim]

theorem ids_trim_sublist [LT τ] [DecidableLT τ] (cutoff : τ) (log : List (Charge ι τ κ)) :
    (ids (trim cutoff log)).Sublist (ids log) :=
  List.filter_sublist.map _

@[simp] theorem ids_append (log log' : List (Charge ι τ κ)) :
    ids (log ++ log') = ids log ++ ids log' := List.map_append

/-- One charge per id. -/
theorem eq_of_id (hnodup : (ids log).Nodup) (hc : c ∈ log) (hc' : c' ∈ log)
    (h : c.id = c'.id) : c = c' :=
  List.inj_on_of_nodup_map hnodup hc hc' h

section Settle
variable [DecidableEq ι] {id : ι} {stamp : τ} {cost : κ}

@[simp] theorem ids_settle : ids (settle id stamp cost log) = ids log := by
  simp only [ids, settle, List.map_map]
  refine List.map_congr_left fun c _ => ?_
  by_cases h : c.id = id <;> simp [h]

theorem mem_settle :
    c ∈ settle id stamp cost log ↔
      (c ∈ log ∧ c.id ≠ id) ∨ (c = ⟨id, stamp, cost⟩ ∧ id ∈ ids log) := by
  simp only [settle, List.mem_map, mem_ids]
  constructor
  · rintro ⟨d, hd, rfl⟩
    by_cases h : d.id = id
    · exact .inr ⟨if_pos h, d, hd, h⟩
    · rw [if_neg h]
      exact .inl ⟨hd, h⟩
  · rintro (⟨hc, hne⟩ | ⟨rfl, d, hd, hid⟩)
    · exact ⟨c, hc, if_neg hne⟩
    · exact ⟨d, hd, if_pos hid⟩

/-- Settling replaces the one charge of the id. -/
theorem settle_perm (hnodup : (ids log).Nodup) (h : id ∈ ids log) :
    (settle id stamp cost log).Perm (⟨id, stamp, cost⟩ :: log.filter fun c => c.id ≠ id) := by
  refine (List.perm_ext_iff_of_nodup ?_ ?_).mpr fun c => ?_
  · exact List.Nodup.of_map Charge.id (by rwa [← ids, ids_settle])
  · refine List.nodup_cons.mpr ⟨by simp, (hnodup.of_map _).filter _⟩
  · rw [mem_settle]
    simp [h, or_comm]

end Settle

/-- Logs with the same charges have the same costs up to order. -/
theorem costs_perm (hnodup : (ids log).Nodup) (hnodup' : (ids log').Nodup)
    (h : ∀ c, c ∈ log ↔ c ∈ log') : (costs log).Perm (costs log') :=
  ((List.perm_ext_iff_of_nodup (hnodup.of_map _) (hnodup'.of_map _)).mpr h).map _

/-- A log holds what a complete log holds, up to charges stamped at or before a cutoff. -/
structure Covers [LE τ] (cutoff : τ) (log all : List (Charge ι τ κ)) : Prop where
  sub : ∀ c ∈ log, c ∈ all
  covered : ∀ c ∈ all, c ∈ log ∨ c.stamp ≤ cutoff

namespace Covers
variable [LinearOrder τ] {cutoff cutoff' : τ} {log all : List (Charge ι τ κ)}

theorem nil (h : ∀ c ∈ all, c.stamp ≤ cutoff) : Covers cutoff [] all :=
  ⟨by simp, fun c hc => .inr (h c hc)⟩

theorem mono (h : Covers cutoff log all) (hle : cutoff ≤ cutoff') : Covers cutoff' log all :=
  ⟨h.sub, fun c hc => (h.covered c hc).imp_right (·.trans hle)⟩

theorem trim (h : Covers cutoff log all) : Covers cutoff (trim cutoff log) all where
  sub c hc := h.sub c (mem_trim.mp hc).1
  covered c hc := by
    rcases le_or_gt c.stamp cutoff with hle | hgt
    · exact .inr hle
    · exact .inl (mem_trim.mpr ⟨(h.covered c hc).resolve_right (not_le.mpr hgt), hgt⟩)

theorem append (h : Covers cutoff log all) (c : Charge ι τ κ) :
    Covers cutoff (log ++ [c]) (all ++ [c]) where
  sub d hd := by
    obtain hold | hnew := List.mem_append.mp hd
    · exact List.mem_append_left _ (h.sub d hold)
    · exact List.mem_append_right _ hnew
  covered d hd := by
    obtain hold | hnew := List.mem_append.mp hd
    · exact (h.covered d hold).imp_left (List.mem_append_left _)
    · exact .inl (List.mem_append_right _ hnew)

/-- Settling a charge that the log still holds keeps the two logs in step. -/
theorem settle [DecidableEq ι] {id : ι} (h : Covers cutoff log all) (hid : id ∈ ids log)
    (stamp : τ) (cost : κ) :
    Covers cutoff (settle id stamp cost log) (settle id stamp cost all) where
  sub c hc := by
    obtain ⟨hold, hne⟩ | ⟨rfl, -⟩ := mem_settle.mp hc
    · exact mem_settle.mpr (.inl ⟨h.sub c hold, hne⟩)
    · obtain ⟨d, hd, hdid⟩ := mem_ids.mp hid
      exact mem_settle.mpr (.inr ⟨rfl, mem_ids.mpr ⟨d, h.sub d hd, hdid⟩⟩)
  covered c hc := by
    obtain ⟨hold, hne⟩ | ⟨rfl, -⟩ := mem_settle.mp hc
    · exact (h.covered c hold).imp_left fun hin => mem_settle.mpr (.inl ⟨hin, hne⟩)
    · exact .inl (mem_settle.mpr (.inr ⟨rfl, hid⟩))

/-- Inside the window both logs cost the same. -/
theorem costs_trim_perm (h : Covers cutoff log all) (hnodup : (ids log).Nodup)
    (hnodup' : (ids all).Nodup) :
    (costs (WindowLog.trim cutoff log)).Perm (costs (WindowLog.trim cutoff all)) := by
  refine costs_perm (hnodup.sublist (ids_trim_sublist _ _))
    (hnodup'.sublist (ids_trim_sublist _ _)) fun c => ?_
  rw [mem_trim, mem_trim]
  constructor
  · rintro ⟨hc, hin⟩
    exact ⟨h.sub c hc, hin⟩
  · rintro ⟨hc, hin⟩
    exact ⟨(h.covered c hc).resolve_right (not_le.mpr hin), hin⟩

end Covers

/-- A log whose charges are all in another log of non-negative costs has a smaller total. -/
theorem sum_costs_le {log log' : List (Charge ι τ Int)} (hnodup : (ids log).Nodup)
    (hsub : ∀ c ∈ log, c ∈ log') (hnonneg : ∀ c ∈ log', 0 ≤ c.cost) :
    (costs log).sum ≤ (costs log').sum := by
  obtain ⟨part, hpart, hsublist⟩ := List.subperm_of_subset (hnodup.of_map _) hsub
  obtain ⟨rest, hperm⟩ := hsublist.exists_perm_append
  have hcosts : (costs log).sum + (costs rest).sum = (costs log').sum := by
    rw [costs, costs, costs, (hperm.map Charge.cost).sum_eq, List.map_append, List.sum_append,
      (hpart.map Charge.cost).sum_eq]
  have hrest : 0 ≤ (costs rest).sum := by
    refine List.sum_nonneg fun x hx => ?_
    obtain ⟨c, hc, rfl⟩ := List.mem_map.mp hx
    exact hnonneg c (hperm.mem_iff.mpr (List.mem_append_right _ hc))
  omega

end WindowLog

end InferenceGateway.Library
