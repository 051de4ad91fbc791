import InferenceGateway.Library.Binary64
import Mathlib.Data.List.DropRight

/-!
# Integers in Lua 5.1

Lua 5.1 has one number type, the binary64 numbers. An integer argument is rounded when
`tonumber` reads it, and concatenation writes a number with the format `%.14g`: up to
fourteen digits in full, longer ones as a rounded significand and an exponent. The text
of a number is therefore read back by a pattern of digits exactly when it has at most
fourteen digits. Integers from `2 ^ 1024` on are not told apart from infinity: both are
beyond every bound and neither is written with digits only.
-/
namespace InferenceGateway.Library.LuaNumber

/-- `tonumber` on the decimal text of an integer. -/
def ofInt (n : Int) : Int := binary64.round n

/-- The exponent form of `%.14g`, for a magnitude of more than fourteen digits: the
significand is rounded half to even and loses its trailing zeros. -/
def exponentForm (m : Nat) : String :=
  let exponent := (Nat.toDigits 10 m).length - 1
  let scale := 10 ^ (exponent - 13)
  let q := m / scale
  let r := m % scale
  let q' := if scale < 2 * r ∨ (2 * r = scale ∧ q % 2 = 1) then q + 1 else q
  let exponent' := if q' = 10 ^ 14 then exponent + 1 else exponent
  let significand := if q' = 10 ^ 14 then 10 ^ 13 else q'
  let digits := Nat.toDigits 10 significand
  let fraction := digits.tail.rdropWhile (· = '0')
  let point := if fraction = [] then "" else "."
  String.ofList (digits.take 1) ++ point ++ String.ofList fraction ++ "e+" ++ toString exponent'

/-- `..` on a number: the format `%.14g`. -/
def concat (n : Int) : String :=
  if n.natAbs < 10 ^ 14 then toString n
  else if n < 0 then "-" ++ exponentForm n.natAbs else exponentForm n.natAbs

example : concat (-42) = "-42" := by decide
example : concat (10 ^ 14) = "1e+14" := by decide +kernel
example : concat 123456789012345678 = "1.2345678901235e+17" := by decide +kernel

/-- The pattern `%d+$`, at the place where it must start. -/
def matchDigits (cs : List Char) : Option Nat :=
  if cs ≠ [] ∧ cs.all Char.isDigit then some (Nat.ofDigitChars 10 cs 0) else none

/-- The pattern `%-?%d+$`, read as an integer. -/
def matchInt : List Char → Option Int
  | '-' :: cs => (matchDigits cs).map fun n : Nat => -(n : Int)
  | cs => (matchDigits cs).map fun n : Nat => (n : Int)

/-- `tonumber(string.match(text, ':(%-?%d+)$'))`: the leftmost colon from which the rest
of the text is an integer. -/
def matchSuffix : List Char → Option Int
  | [] => none
  | ':' :: cs => (matchInt cs).orElse fun _ => matchSuffix cs
  | _ :: cs => matchSuffix cs

/-! ## Reading back what was written -/

theorem toList_toString (n : Int) :
    (toString n).toList =
      if n < 0 then '-' :: Nat.toDigits 10 n.natAbs else Nat.toDigits 10 n.natAbs := by
  cases n with
  | ofNat m =>
    have hneg : ¬ Int.ofNat m < 0 := not_lt.mpr (Int.natCast_nonneg m)
    rw [if_neg hneg, show toString (Int.ofNat m) = m.repr from rfl, Nat.toList_repr]
    rfl
  | negSucc m => simp [show toString (Int.negSucc m) = "-" ++ (m + 1).repr from rfl]

theorem matchDigits_toDigits (n : Nat) : matchDigits (Nat.toDigits 10 n) = some n := by
  have hall : (Nat.toDigits 10 n).all Char.isDigit = true :=
    List.all_eq_true.mpr fun c hc => Nat.isDigit_of_mem_toDigits (by decide) (by decide) hc
  simp [matchDigits, hall]

theorem matchDigits_eq_none {cs : List Char} {c : Char} (hc : c ∈ cs) (h : ¬ c.isDigit) :
    matchDigits cs = none := by
  have hall : ¬ cs.all Char.isDigit = true := fun hall => h (List.all_eq_true.mp hall c hc)
  simp [matchDigits, hall]

theorem matchInt_eq_none {cs : List Char} {c : Char} (hc : c ∈ cs) (hne : c ≠ '-')
    (h : ¬ c.isDigit) : matchInt cs = none := by
  unfold matchInt
  split
  · rw [matchDigits_eq_none ((List.mem_cons.mp hc).resolve_left hne) h, Option.map_none]
  · rw [matchDigits_eq_none hc h, Option.map_none]

theorem matchInt_toString (n : Int) : matchInt (toString n).toList = some n := by
  rw [toList_toString]
  split
  · simp only [matchInt, matchDigits_toDigits, Option.map_some, Option.some.injEq]
    omega
  · have hdigits : Nat.toDigits 10 n.natAbs ≠ [] := Nat.toDigits_ne_nil
    obtain ⟨c, cs, hcs⟩ := List.exists_cons_of_ne_nil hdigits
    have hdigit : c.isDigit :=
      Nat.isDigit_of_mem_toDigits (b := 10) (n := n.natAbs) (by decide) (by decide) (by simp [hcs])
    have hne : c ≠ '-' := by
      rintro rfl
      exact absurd hdigit (by decide)
    have hmatch := matchDigits_toDigits n.natAbs
    rw [hcs] at hmatch ⊢
    unfold matchInt
    split
    · rename_i heq
      exact absurd (List.cons.inj heq).1 hne
    · rw [hmatch, Option.map_some, Option.some.injEq]
      omega

theorem matchSuffix_eq_none {cs : List Char} (h : ':' ∉ cs) : matchSuffix cs = none := by
  induction cs with
  | nil => rfl
  | cons c cs ih =>
    have hc : c ≠ ':' := fun hc => h (by simp [hc])
    rw [matchSuffix]
    · exact ih fun hmem => h (List.mem_cons_of_mem _ hmem)
    · exact fun hc' => hc hc'

/-- With a single colon in the text, only what follows it can match. -/
theorem matchSuffix_append {pre cs : List Char} (hpre : ':' ∉ pre) (hcs : ':' ∉ cs) :
    matchSuffix (pre ++ ':' :: cs) = matchInt cs := by
  induction pre with
  | nil => simp [matchSuffix, matchSuffix_eq_none hcs]
  | cons c pre ih =>
    have hc : c ≠ ':' := fun hc => hpre (by simp [hc])
    rw [List.cons_append, matchSuffix]
    · exact ih fun hmem => hpre (List.mem_cons_of_mem _ hmem)
    · exact fun hc' => hc hc'

/-- The characters of a number text. -/
def IsNumeral (c : Char) : Prop := c.isDigit ∨ c ∈ ['-', '.', 'e', '+']

theorem isNumeral_of_mem_toString {n : Int} {c : Char} (h : c ∈ (toString n).toList) :
    IsNumeral c := by
  have hdigits : ∀ d ∈ Nat.toDigits 10 n.natAbs, IsNumeral d := fun d hd =>
    .inl (Nat.isDigit_of_mem_toDigits (by decide) (by decide) hd)
  rw [toList_toString] at h
  split at h
  · rcases List.mem_cons.mp h with rfl | h
    · exact .inr (by decide)
    · exact hdigits c h
  · exact hdigits c h

theorem isNumeral_of_mem_exponentForm {m : Nat} {c : Char} (h : c ∈ (exponentForm m).toList) :
    IsNumeral c := by
  have hdigits : ∀ k d, d ∈ Nat.toDigits 10 k → IsNumeral d := fun k d hd =>
    .inl (Nat.isDigit_of_mem_toDigits (by decide) (by decide) hd)
  have hpoint : ∀ text : String, text = "" ∨ text = "." → c ∈ text.toList → IsNumeral c := by
    rintro text (rfl | rfl) hmem
    · simp at hmem
    · exact .inr (by simp_all)
  simp only [exponentForm, String.toList_append, String.toList_ofList, List.mem_append] at h
  rcases h with (((h | h) | h) | h) | h
  · exact hdigits _ c (List.mem_of_mem_take h)
  · exact hpoint _ (ite_eq_or_eq _ _ _) h
  · exact hdigits _ c (List.mem_of_mem_tail ((List.rdropWhile_prefix _ _).subset h))
  · exact .inr (by simp at h; rcases h with rfl | rfl <;> decide)
  · exact hdigits _ c (by simpa using h)

theorem e_mem_exponentForm (m : Nat) : 'e' ∈ (exponentForm m).toList := by
  simp [exponentForm]

theorem isNumeral_of_mem_concat {n : Int} {c : Char} (h : c ∈ (concat n).toList) :
    IsNumeral c := by
  unfold concat at h
  split_ifs at h
  · exact isNumeral_of_mem_toString h
  · rw [String.toList_append, List.mem_append] at h
    rcases h with h | h
    · exact .inr (by simp at h; simp [h])
    · exact isNumeral_of_mem_exponentForm h
  · exact isNumeral_of_mem_exponentForm h

theorem colon_not_mem_concat (n : Int) : ':' ∉ (concat n).toList := by
  intro h
  rcases isNumeral_of_mem_concat h with h | h <;> revert h <;> decide

theorem matchInt_concat (n : Int) :
    matchInt (concat n).toList = if n.natAbs < 10 ^ 14 then some n else none := by
  unfold concat
  split_ifs
  · exact matchInt_toString n
  · refine matchInt_eq_none (c := 'e') ?_ (by decide) (by decide)
    rw [String.toList_append]
    exact List.mem_append_right _ (e_mem_exponentForm _)
  · exact matchInt_eq_none (e_mem_exponentForm _) (by decide) (by decide)

theorem ofInt_of_small {n : Int} (h : n.natAbs < 10 ^ 14) : ofInt n = n := by
  refine binary64.exact n ?_
  rw [Int.abs_eq_natAbs]
  have : binary64.limit = 2 ^ 53 := rfl
  omega

theorem ofInt_of_large {n : Int} (h : ¬ n.natAbs < 10 ^ 14) : ¬ (ofInt n).natAbs < 10 ^ 14 := by
  have hlimit : binary64.limit = 2 ^ 53 := rfl
  rcases le_or_gt |n| binary64.limit with hle | hgt
  · rwa [ofInt, binary64.exact n hle]
  · rw [Int.abs_eq_natAbs] at hgt
    rcases le_total 0 n with hn | hn
    · have := binary64.high n (by omega)
      rw [ofInt]
      omega
    · have := binary64.low n (by omega)
      rw [ofInt]
      omega

/-- An integer written after a colon is read back exactly or not at all, and it is read
back exactly when it has at most fourteen digits. -/
theorem matchSuffix_concat {pre : List Char} (hpre : ':' ∉ pre) (n : Int) :
    matchSuffix (pre ++ ':' :: (concat (ofInt n)).toList) =
      if n.natAbs < 10 ^ 14 then some n else none := by
  rw [matchSuffix_append hpre (colon_not_mem_concat _), matchInt_concat]
  by_cases h : n.natAbs < 10 ^ 14
  · rw [ofInt_of_small h]
  · rw [if_neg h, if_neg (ofInt_of_large h)]

end InferenceGateway.Library.LuaNumber
