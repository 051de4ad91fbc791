import Mathlib.Algebra.BigOperators.Group.List.Basic
import Mathlib.Algebra.Order.Group.Abs
import Mathlib.Algebra.Order.Ring.Int
import Mathlib.Data.Nat.Size
import Mathlib.Tactic.NormNum
import Mathlib.Tactic.Positivity

/-!
# Integers held in binary64 numbers

A program that keeps integers in floating-point numbers adds them exactly as long as no
partial sum leaves the exact range. `Rounding` states what that needs of a rounding:
exactness inside a range, and no return into the range from outside. Comparing a rounded
sum with a bound then gives the same answer as comparing the exact sum, unless the
negative terms are large enough to bring an inexact partial sum back below the bound.
-/
namespace InferenceGateway.Library

/-- A rounding of integers that is exact up to `limit` and keeps larger values large. -/
structure Rounding where
  round : Int → Int
  limit : Int
  exact : ∀ n, |n| ≤ limit → round n = n
  high : ∀ n, limit ≤ n → limit ≤ round n
  low : ∀ n, n ≤ -limit → round n ≤ -limit

namespace Rounding

variable (R : Rounding)

/-- The accumulator loop `total = total + x`, with every number rounded. -/
def sumFrom (t : Int) (xs : List Int) : Int := xs.foldl (fun t x => R.round (t + R.round x)) t

def sum (xs : List Int) : Int := R.sumFrom 0 xs

/-- How far the negative terms can bring a sum down. -/
def deficit (xs : List Int) : Int := (xs.map fun x => max (-x) 0).sum

@[simp] theorem deficit_nil : deficit [] = 0 := rfl

@[simp] theorem deficit_cons (x : Int) (xs : List Int) :
    deficit (x :: xs) = max (-x) 0 + deficit xs := by
  simp [deficit]

theorem deficit_nonneg (xs : List Int) : 0 ≤ deficit xs := by
  induction xs with
  | nil => simp
  | cons x xs ih => simp only [deficit_cons]; omega

theorem neg_deficit_le_sum (xs : List Int) : -deficit xs ≤ xs.sum := by
  induction xs with
  | nil => simp
  | cons x xs ih => simp only [deficit_cons, List.sum_cons]; omega

theorem deficit_eq_zero {xs : List Int} (h : ∀ x ∈ xs, 0 ≤ x) : deficit xs = 0 := by
  induction xs with
  | nil => rfl
  | cons x xs ih =>
    have hx := h x List.mem_cons_self
    have hrest := ih fun y hy => h y (List.mem_cons_of_mem _ hy)
    simp only [deficit_cons]
    omega

theorem deficit_perm {xs ys : List Int} (h : xs.Perm ys) : deficit xs = deficit ys :=
  (h.map _).sum_eq

/-- Rounding does not cross a bound of the exact range from above. -/
theorem le_round {m n : Int} (hm : |m| ≤ R.limit) (h : m ≤ n) : m ≤ R.round n := by
  rw [abs_le] at hm
  rcases le_total R.limit n with hn | hn
  · exact hm.2.trans (R.high n hn)
  · rw [R.exact n (abs_le.mpr ⟨by omega, hn⟩)]
    exact h

/-- From an accumulator above `m`, a rounded sum stays above `m` less the deficit. -/
theorem le_sumFrom (xs : List Int) {t m : Int} (hm : m ≤ R.limit)
    (hlow : deficit xs ≤ R.limit) (hroom : -R.limit ≤ m - deficit xs) (h : m ≤ t) :
    m - deficit xs ≤ R.sumFrom t xs := by
  induction xs generalizing t m with
  | nil => simpa [sumFrom] using h
  | cons x xs ih =>
    have hnn := deficit_nonneg xs
    simp only [deficit_cons] at hlow hroom ⊢
    have hx : -max (-x) 0 ≤ R.round x := by
      refine R.le_round (abs_le.mpr ⟨?_, ?_⟩) ?_ <;> omega
    have hstep : m - max (-x) 0 ≤ R.round (t + R.round x) := by
      refine R.le_round (abs_le.mpr ⟨?_, ?_⟩) ?_ <;> omega
    have hrest := ih (m := m - max (-x) 0) (by omega) (by omega) (by omega) hstep
    have hsum : R.sumFrom t (x :: xs) = R.sumFrom (R.round (t + R.round x)) xs := rfl
    omega

/-- A rounded accumulator ends below `b` exactly when the exact one does, as long as the
terms read so far and the rest cannot bring a value outside the exact range below `b`. -/
theorem sumFrom_le_iff (xs : List Int) {t p b : Int} (hb : 0 ≤ b) (hp : 0 ≤ p) (hlow : -p ≤ t)
    (hhigh : t ≤ R.limit) (hroom : p + deficit xs + b < R.limit) :
    R.sumFrom t xs ≤ b ↔ t + xs.sum ≤ b := by
  induction xs generalizing t p with
  | nil => simp [sumFrom]
  | cons x xs ih =>
    have hnn := deficit_nonneg xs
    have hsum := neg_deficit_le_sum xs
    have hstep : R.sumFrom t (x :: xs) = R.sumFrom (R.round (t + R.round x)) xs := rfl
    simp only [deficit_cons] at hroom
    rw [hstep, List.sum_cons]
    by_cases hx : x ≤ R.limit
    · have hexact : R.round x = x := R.exact x (abs_le.mpr ⟨by omega, hx⟩)
      by_cases htx : t + x ≤ R.limit
      · have hacc : R.round (t + R.round x) = t + x := by
          rw [hexact]
          exact R.exact _ (abs_le.mpr ⟨by omega, htx⟩)
        rw [hacc, ih (p := p + max (-x) 0) (by omega) (by omega) htx (by omega)]
        omega
      · have hacc : R.limit ≤ R.round (t + R.round x) := R.high _ (by omega)
        have hrest := R.le_sumFrom xs le_rfl (by omega) (by omega) hacc
        exact iff_of_false (by omega) (by omega)
    · have hbig : R.limit ≤ R.round x := R.high x (by omega)
      have hacc : R.limit - p ≤ R.round (t + R.round x) := by
        refine R.le_round (abs_le.mpr ⟨?_, ?_⟩) ?_ <;> omega
      have hrest := R.le_sumFrom xs (by omega) (by omega) (by omega) hacc
      exact iff_of_false (by omega) (by omega)

/-- Comparing a rounded sum with a bound is comparing the exact sum with it. -/
theorem sum_le_iff (xs : List Int) {b : Int} (hb : 0 ≤ b) (hroom : deficit xs + b < R.limit) :
    R.sum xs ≤ b ↔ xs.sum ≤ b := by
  have hnn := deficit_nonneg xs
  simpa [sum] using R.sumFrom_le_iff xs hb le_rfl (t := 0) (by omega) (by omega) (by omega)

end Rounding

/-- Round to the nearest multiple of the last place of a 53-bit significand, ties to the
even significand. -/
def roundNat (m : Nat) : Nat :=
  let ulp := 2 ^ (m.size - 53)
  let q := m / ulp
  let r := m % ulp
  if ulp < 2 * r ∨ (2 * r = ulp ∧ q % 2 = 1) then (q + 1) * ulp else q * ulp

theorem roundNat_exact {m : Nat} (h : m ≤ 2 ^ 53) : roundNat m = m := by
  rcases Nat.lt_or_ge m (2 ^ 53) with hlt | hge
  · have hsize : m.size - 53 = 0 := Nat.sub_eq_zero_of_le (Nat.size_le.mpr hlt)
    simp [roundNat, hsize, Nat.mod_one]
  · obtain rfl : m = 2 ^ 53 := le_antisymm h hge
    decide +kernel

theorem le_roundNat {m : Nat} (h : 2 ^ 53 ≤ m) : 2 ^ 53 ≤ roundNat m := by
  have hsize : 53 < m.size := Nat.lt_size.mpr h
  have hlow : 2 ^ (m.size - 1) ≤ m := Nat.lt_size.mp (by omega)
  have hq : 2 ^ 52 ≤ m / 2 ^ (m.size - 53) := by
    rw [Nat.le_div_iff_mul_le (by positivity), ← pow_add]
    exact (Nat.pow_le_pow_right (by omega) (by omega)).trans hlow
  have hulp : 2 ^ 1 ≤ 2 ^ (m.size - 53) := Nat.pow_le_pow_right (by omega) (by omega)
  have hmul : 2 ^ 53 ≤ m / 2 ^ (m.size - 53) * 2 ^ (m.size - 53) := by
    calc 2 ^ 53 = 2 ^ 52 * 2 ^ 1 := by norm_num
      _ ≤ _ := Nat.mul_le_mul hq hulp
  unfold roundNat
  dsimp only
  split_ifs
  · exact hmul.trans (Nat.mul_le_mul_right _ (Nat.le_succ _))
  · exact hmul

/-- Integers as binary64 numbers. -/
def binary64 : Rounding where
  round n := n.sign * roundNat n.natAbs
  limit := 2 ^ 53
  exact n h := by
    have habs : n.natAbs ≤ 2 ^ 53 := by
      rw [Int.abs_eq_natAbs] at h
      omega
    rw [roundNat_exact habs]
    exact Int.sign_mul_natAbs n
  high n h := by
    have := le_roundNat (m := n.natAbs) (by omega)
    rw [Int.sign_eq_one_of_pos (by omega)]
    omega
  low n h := by
    have := le_roundNat (m := n.natAbs) (by omega)
    rw [Int.sign_eq_neg_one_of_neg (by omega)]
    omega

example : binary64.round (2 ^ 53 + 1) = 2 ^ 53 := by decide +kernel
example : binary64.round (2 ^ 53 + 3) = 2 ^ 53 + 4 := by decide +kernel

end InferenceGateway.Library
