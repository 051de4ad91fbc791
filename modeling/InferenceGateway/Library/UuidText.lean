import InferenceGateway.Library.Json
import Mathlib.Logic.Function.Basic

/-!
# The text of a UUID

`str(uuid)`: the number in hexadecimal digits, padded to 32 with zeros, with a hyphen after
the first 8, 12, 16 and 20 of them. Different numbers have different texts.
-/
namespace InferenceGateway.Library

/-- `'%032x' % n`. -/
def hex32 (n : Nat) : List Char :=
  List.replicate (32 - (Nat.toDigits 16 n).length) '0' ++ Nat.toDigits 16 n

/-- `'-'.join([hex[:8], hex[8:12], hex[12:16], hex[16:20], hex[20:]])`. -/
def uuidText (n : Nat) : String :=
  let hex := hex32 n
  String.ofList (hex.take 8 ++ '-' :: ((hex.drop 8).take 4 ++ '-' :: ((hex.drop 12).take 4 ++
    '-' :: ((hex.drop 16).take 4 ++ '-' :: hex.drop 20))))

/-- The number that hexadecimal digits stand for, most significant first. -/
def ofHexDigits (cs : List Char) (n : Nat) : Nat :=
  cs.foldl (fun n c => 16 * n + (Json.Scan.hexValue? c).getD 0) n

theorem ofHexDigits_append (cs cs' : List Char) (n : Nat) :
    ofHexDigits (cs ++ cs') n = ofHexDigits cs' (ofHexDigits cs n) := List.foldl_append

theorem ofHexDigits_digitChar {d : Nat} (hd : d < 16) (n : Nat) :
    ofHexDigits [Nat.digitChar d] n = 16 * n + d := by
  simp [ofHexDigits, Json.hexValue?_digitChar d hd]

theorem ofHexDigits_zeros (k : Nat) : ofHexDigits (List.replicate k '0') 0 = 0 := by
  induction k with
  | zero => rfl
  | succ k ih =>
    have hzero : ofHexDigits ['0'] 0 = 0 := ofHexDigits_digitChar (d := 0) (by decide) 0
    rw [List.replicate_succ, ← List.singleton_append, ofHexDigits_append, hzero, ih]

theorem ofHexDigits_toDigits (n : Nat) : ofHexDigits (Nat.toDigits 16 n) 0 = n := by
  induction n using Nat.base_induction 16 (by decide) with
  | single m hm =>
    rw [Nat.toDigits_of_lt_base hm, ofHexDigits_digitChar hm, Nat.mul_zero, Nat.zero_add]
  | digit m d hd hm ih =>
    rw [← Nat.toDigits_append_toDigits (by decide) hm hd, ofHexDigits_append, ih,
      Nat.toDigits_of_lt_base hd, ofHexDigits_digitChar hd]

theorem ofHexDigits_hex32 (n : Nat) : ofHexDigits (hex32 n) 0 = n := by
  rw [hex32, ofHexDigits_append, ofHexDigits_zeros, ofHexDigits_toDigits]

theorem hyphen_not_mem_toDigits (n : Nat) : '-' ∉ Nat.toDigits 16 n := by
  have hdigit : ∀ d, '-' ∉ [Nat.digitChar d] := fun d => by simp
  induction n using Nat.base_induction 16 (by decide) with
  | single m hm =>
    rw [Nat.toDigits_of_lt_base hm]
    exact hdigit m
  | digit m d hd hm ih =>
    rw [← Nat.toDigits_append_toDigits (by decide) hm hd, Nat.toDigits_of_lt_base hd,
      List.mem_append]
    exact not_or.mpr ⟨ih, hdigit d⟩

/-- Without its hyphens the text is the padded number. -/
theorem filter_uuidText (n : Nat) : (uuidText n).toList.filter (· ≠ '-') = hex32 n := by
  have hplain : ∀ c ∈ hex32 n, c ≠ '-' := by
    rintro c hc rfl
    obtain hzero | hdigit := List.mem_append.mp hc
    · exact absurd (List.eq_of_mem_replicate hzero) (by decide)
    · exact hyphen_not_mem_toDigits n hdigit
  have hkeep : ∀ cs : List Char, cs ⊆ hex32 n → cs.filter (· ≠ '-') = cs := fun cs hcs =>
    List.filter_eq_self.mpr fun c hc => by simpa using hplain c (hcs hc)
  have hdrop : ∀ i k, ((hex32 n).drop i).take k ++ (hex32 n).drop (i + k) = (hex32 n).drop i :=
    fun i k => by rw [← List.drop_drop, List.take_append_drop]
  have hslice : ∀ i k, ((hex32 n).drop i).take k ⊆ hex32 n := fun i k =>
    List.Subset.trans (List.take_subset _ _) (List.drop_subset _ _)
  simp only [uuidText, String.toList_ofList, List.filter_append, List.filter_cons, ne_eq,
    not_true_eq_false, decide_false, Bool.false_eq_true, if_false]
  rw [hkeep _ (List.take_subset _ _), hkeep _ (hslice 8 4), hkeep _ (hslice 12 4),
    hkeep _ (hslice 16 4), hkeep _ (List.drop_subset _ _), hdrop 16 4, hdrop 12 4, hdrop 8 4,
    List.take_append_drop]

theorem uuidText_injective : Function.Injective uuidText := fun n m h => by
  rw [← ofHexDigits_hex32 n, ← filter_uuidText, h, filter_uuidText, ofHexDigits_hex32]

end InferenceGateway.Library
