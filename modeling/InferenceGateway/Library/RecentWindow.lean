import Mathlib.Data.List.Infix

/-!
# Lists that keep the newest values

Values are pushed at the head of a list, and the list is cut to a window every now and
then. It always starts like the list of all values, and holds the newest ones up to the
window once everything has been cut.
-/
namespace InferenceGateway.Library

variable {α : Type}

/-- The list keeps the newest values of a window, and at most so many others. -/
structure Windowed (size : Nat) (list values : List α) (excess : Nat) : Prop where
  newest : list <+: values
  full : min values.length size ≤ list.length
  bounded : list.length ≤ size + excess

namespace Windowed
variable {size excess : Nat} {list values : List α}

theorem nil (size excess : Nat) : Windowed size ([] : List α) [] excess :=
  ⟨List.prefix_rfl, Nat.min_le_left _ _, Nat.zero_le _⟩

theorem push (h : Windowed size list values excess) (a : α) :
    Windowed size (a :: list) (a :: values) (excess + 1) where
  newest := (List.prefix_cons_inj a).mpr h.newest
  full := by
    have hfull := h.full
    rw [List.length_cons, List.length_cons]
    omega
  bounded := Nat.succ_le_succ h.bounded

/-- Cutting the list drops nothing that is in the window. -/
theorem cut (h : Windowed size list values excess) (excess' : Nat) :
    Windowed size (list.take size) values excess' where
  newest := (List.take_prefix _ _).trans h.newest
  full := by
    have hfull := h.full
    rw [List.length_take]
    omega
  bounded := by
    rw [List.length_take]
    omega

theorem mono (h : Windowed size list values excess) {excess' : Nat} (hle : excess ≤ excess') :
    Windowed size list values excess' :=
  ⟨h.newest, h.full, h.bounded.trans (Nat.add_le_add_left hle _)⟩

theorem eq_take (h : Windowed size list values 0) : list = values.take size := by
  have hfull := h.full
  have hbounded := h.bounded
  have hlength := h.newest.length_le
  rw [List.prefix_iff_eq_take.mp h.newest, List.take_eq_take_iff]
  omega

end Windowed

end InferenceGateway.Library
