import Mathlib.Data.List.Basic

/-!
# JSON texts

JSON values with integers, how they are written, and a machine that reads a text character
by character with the containers that are still open. A number ends with the character
after it, all other values with their last one. Reading undoes writing, and what is written
holds no control character.
-/
namespace InferenceGateway.Library

inductive Json where
  | null
  | int (n : Int)
  | str (s : String)
  | arr (items : List Json)
  | obj (fields : List (String × Json))

namespace Json

/-- The value of a key. -/
def field? (key : String) : Json → Option Json
  | .obj fields => (fields.find? fun field => field.1 = key).map Prod.snd
  | _ => none

def item? (i : Nat) : Json → Option Json
  | .arr items => items[i]?
  | _ => none

def str? : Json → Option String
  | .str s => some s
  | _ => none

def int? : Json → Option Int
  | .int n => some n
  | _ => none

/-! ## Writing -/

/-- Characters that are written as a backslash and a letter. -/
def shortEscapes : List (Char × Char) :=
  [('"', '"'), ('\\', '\\'), ('\n', 'n'), ('\r', 'r'), ('\t', 't'), ('\x08', 'b'), ('\x0c', 'f')]

def escape (c : Char) : List Char :=
  match shortEscapes.lookup c with
  | some e => ['\\', e]
  | none =>
    if c.toNat < 32 then
      ['\\', 'u', '0', '0', Nat.digitChar (c.toNat / 16), Nat.digitChar (c.toNat % 16)]
    else [c]

def quote (s : String) : List Char := '"' :: (s.toList.flatMap escape ++ ['"'])

def writeInt (n : Int) : List Char :=
  if n < 0 then '-' :: Nat.toDigits 10 n.natAbs else Nat.toDigits 10 n.natAbs

mutual

/-- The text of a value, with these blanks after commas and colons. -/
def write (blank : List Char) : Json → List Char
  | .null => ['n', 'u', 'l', 'l']
  | .int n => writeInt n
  | .str s => quote s
  | .arr [] => ['[', ']']
  | .arr (j :: items) => '[' :: (write blank j ++ writeItems blank items)
  | .obj [] => ['{', '}']
  | .obj ((key, j) :: fields) =>
    '{' :: (quote key ++ ':' :: (blank ++ (write blank j ++ writeFields blank fields)))

def writeItems (blank : List Char) : List Json → List Char
  | [] => [']']
  | j :: items => ',' :: (blank ++ (write blank j ++ writeItems blank items))

def writeFields (blank : List Char) : List (String × Json) → List Char
  | [] => ['}']
  | (key, j) :: fields =>
    ',' :: (blank ++ (quote key ++ ':' :: (blank ++ (write blank j ++ writeFields blank fields))))

end

/-! ## Reading -/

/-- A container that is open, with what has been read of it. -/
inductive Frame where
  | items (read : List Json)
  | fields (read : List (String × Json)) (key : String)

/-- What a string is read as. -/
inductive Target where
  | value (outer : List Frame)
  | key (outer : List Frame) (read : List (String × Json))

inductive Scan where
  | value (outer : List Frame)
  | key (outer : List Frame) (read : List (String × Json))
  | colon (outer : List Frame) (read : List (String × Json)) (key : String)
  | string (target : Target) (read : List Char)
  | escaped (target : Target) (read : List Char)
  /-- After `\u`, with so many hexadecimal digits and their value. -/
  | hex (target : Target) (read : List Char) (count n : Nat)
  | number (outer : List Frame) (negative : Bool) (digits : List Char)
  | word (outer : List Frame) (rest : List Char) (j : Json)
  | done (outer : List Frame) (j : Json)

def integer (negative : Bool) (digits : List Char) : Json :=
  .int (if negative then -Nat.ofDigitChars 10 digits 0 else Nat.ofDigitChars 10 digits 0)

def Target.close (read : List Char) : Target → Scan
  | .value outer => .done outer (.str (String.ofList read))
  | .key outer fields => .colon outer fields (String.ofList read)

namespace Scan

/-- The first character of a value, or the end of an empty array. -/
def open? (outer : List Frame) (c : Char) : Option Scan :=
  if c = '"' then some (.string (.value outer) [])
  else if c = '[' then some (.value (.items [] :: outer))
  else if c = '{' then some (.key outer [])
  else if c = 'n' then some (.word outer ['u', 'l', 'l'] .null)
  else if c = '-' then some (.number outer true [])
  else if c.isDigit then some (.number outer false [c])
  else if c = ' ' then some (.value outer)
  else match outer with
    | .items [] :: outer => if c = ']' then some (.done outer (.arr [])) else none
    | _ => none

/-- The character after a value. -/
def close? (outer : List Frame) (j : Json) (c : Char) : Option Scan :=
  match outer with
  | .items read :: outer =>
    if c = ',' then some (.value (.items (read ++ [j]) :: outer))
    else if c = ']' then some (.done outer (.arr (read ++ [j])))
    else none
  | .fields read name :: outer =>
    if c = ',' then some (.key outer (read ++ [(name, j)]))
    else if c = '}' then some (.done outer (.obj (read ++ [(name, j)])))
    else none
  | [] => none

def hexValue? (c : Char) : Option Nat := (List.range 16).find? fun d => Nat.digitChar d = c

def step : Scan → Char → Option Scan
  | .value outer, c => open? outer c
  | .key outer read, c =>
    if c = '"' then some (.string (.key outer read) [])
    else if c = ' ' then some (.key outer read)
    else if c = '}' ∧ read = [] then some (.done outer (.obj []))
    else none
  | .colon outer read name, c =>
    if c = ':' then some (.value (.fields read name :: outer)) else none
  | .string target read, c =>
    if c = '"' then some (target.close read)
    else if c = '\\' then some (.escaped target read)
    else if c.toNat < 32 then none
    else some (.string target (read ++ [c]))
  | .escaped target read, c =>
    if c = 'u' then some (.hex target read 0 0)
    else (shortEscapes.find? fun pair => pair.2 = c).map fun pair =>
      .string target (read ++ [pair.1])
  | .hex target read count n, c =>
    (hexValue? c).bind fun d =>
      if count < 3 then some (.hex target read (count + 1) (16 * n + d))
      else if (16 * n + d).isValidChar then
        some (.string target (read ++ [Char.ofNat (16 * n + d)]))
      else none
  | .number outer negative digits, c =>
    if c.isDigit then some (.number outer negative (digits ++ [c]))
    else if digits = [] then none
    else close? outer (integer negative digits) c
  | .word outer rest j, c =>
    match rest with
    | [] => none
    | [d] => if c = d then some (.done outer j) else none
    | d :: rest => if c = d then some (.word outer rest j) else none
  | .done outer j, c => close? outer j c

/-- A number that has been read so far, as a value. -/
def settle : Scan → Scan
  | .number outer negative digits =>
    if digits = [] then .number outer negative digits else .done outer (integer negative digits)
  | s => s

end Scan

/-- The value of a text. -/
def read (s : String) : Option Json :=
  match (s.toList.foldlM Scan.step (.value [])).map Scan.settle with
  | some (.done [] j) => some j
  | _ => none

/-! ## Reading undoes writing -/

section RoundTrip
open Scan

theorem hexValue?_digitChar : ∀ d < 16, hexValue? (Nat.digitChar d) = some d := by decide

theorem find?_shortEscapes : ∀ pair ∈ shortEscapes,
    pair.2 ≠ 'u' ∧ shortEscapes.find? (fun pair' => pair'.2 = pair.2) = some pair := by decide

/-- An escaped character is read back. -/
theorem foldlM_escape (target : Target) (read : List Char) (c : Char) :
    (escape c).foldlM step (.string target read) = some (.string target (read ++ [c])) := by
  unfold escape
  split
  · rename_i e he
    obtain ⟨before, after, hsplit, -⟩ := List.lookup_eq_some_iff.mp he
    obtain ⟨hu, hfind⟩ := find?_shortEscapes (c, e) (by simp [hsplit])
    simp [step, hu, hfind]
  · rename_i hnone
    have hplain : c ≠ '"' ∧ c ≠ '\\' := by
      constructor <;> rintro rfl <;> simp [shortEscapes] at hnone
    split
    · rename_i hlt
      have hhigh := hexValue?_digitChar (c.toNat / 16) (by omega)
      have hlow := hexValue?_digitChar (c.toNat % 16) (by omega)
      have hzero : hexValue? '0' = some 0 := rfl
      have hvalue : 16 * (c.toNat / 16) + c.toNat % 16 = c.toNat := Nat.div_add_mod _ _
      have hvalid : c.toNat.isValidChar := c.valid
      simp [step, hzero, hhigh, hlow, hvalue, hvalid, Char.ofNat_toNat]
    · rename_i hge
      simp [step, hplain, hge]

theorem foldlM_quote (target : Target) (read : List Char) (s : List Char) :
    (s.flatMap escape ++ ['"']).foldlM step (.string target read) =
      some (target.close (read ++ s)) := by
  induction s generalizing read with
  | nil => simp [step]
  | cons c s ih =>
    rw [List.flatMap_cons, List.append_assoc, List.foldlM_append, foldlM_escape]
    simpa using ih (read ++ [c])

theorem foldlM_digits (outer : List Frame) (negative : Bool) (read digits : List Char)
    (h : ∀ c ∈ digits, c.isDigit = true) :
    digits.foldlM step (.number outer negative read) =
      some (.number outer negative (read ++ digits)) := by
  induction digits generalizing read with
  | nil => simp
  | cons c digits ih =>
    obtain ⟨hc, hdigits⟩ := List.forall_mem_cons.mp h
    rw [List.foldlM_cons, step, if_pos hc]
    simpa using ih (read ++ [c]) hdigits

/-- The first digit of a number. -/
theorem open?_of_isDigit (outer : List Frame) {c : Char} (hc : c.isDigit = true) :
    open? outer c = some (.number outer false [c]) := by
  have hne : ∀ c', c'.isDigit = false → c ≠ c' := by
    rintro c' hc' rfl
    exact absurd hc' (by simp [hc])
  unfold open?
  rw [if_neg (hne _ rfl), if_neg (hne _ rfl), if_neg (hne _ rfl), if_neg (hne _ rfl),
    if_neg (hne _ rfl), if_pos hc]

theorem foldlM_writeInt (outer : List Frame) (n : Int) :
    ((writeInt n).foldlM step (.value outer)).map settle = some (.done outer (.int n)) := by
  have hdigits : ∀ c ∈ Nat.toDigits 10 n.natAbs, c.isDigit = true := fun c hc =>
    Nat.isDigit_of_mem_toDigits (by omega) (Nat.le_refl 10) hc
  have hvalue : Nat.ofDigitChars 10 (Nat.toDigits 10 n.natAbs) 0 = n.natAbs :=
    Nat.ofDigitChars_ten_toDigits
  have hne : Nat.toDigits 10 n.natAbs ≠ [] := Nat.toDigits_ne_nil
  unfold writeInt
  split
  · rename_i hneg
    have hint : integer true (Nat.toDigits 10 n.natAbs) = .int n := by
      rw [integer, hvalue, if_pos rfl]
      exact congrArg Json.int (by omega)
    have hrest := foldlM_digits outer true [] _ hdigits
    have hopen : step (.value outer) '-' = some (.number outer true []) := rfl
    rw [List.foldlM_cons, hopen]
    simp only [Option.bind_eq_bind, Option.bind_some, hrest, List.nil_append, Option.map_some,
      settle, if_neg hne, hint]
  · rename_i hpos
    have hint : integer false (Nat.toDigits 10 n.natAbs) = .int n := by
      rw [integer, hvalue, if_neg (by simp)]
      exact congrArg Json.int (by omega)
    obtain ⟨d, ds, hds⟩ := List.exists_cons_of_ne_nil hne
    rw [hds] at hdigits hint ⊢
    obtain ⟨hd, hrest⟩ := List.forall_mem_cons.mp hdigits
    have hrest := foldlM_digits outer false [d] ds hrest
    rw [List.foldlM_cons, step, open?_of_isDigit outer hd]
    simp only [Option.bind_eq_bind, Option.bind_some, hrest, List.singleton_append,
      Option.map_some, settle, hint, if_neg (List.cons_ne_nil d ds)]

/-- The character after a number is read as after any other value. -/
theorem step_settle {s : Scan} {outer : List Frame} {j : Json} {c : Char}
    (h : settle s = .done outer j) (hc : c.isDigit = false) :
    step s c = close? outer j c := by
  cases s with
  | done outer' j' =>
    obtain ⟨rfl, rfl⟩ := Scan.done.inj h
    rfl
  | number outer' negative digits =>
    simp only [settle] at h
    split at h
    · exact nomatch h
    · rename_i hne
      obtain ⟨rfl, rfl⟩ := Scan.done.inj h
      simp [step, hc, hne]
  | _ => exact nomatch h

/-- The blanks that a writer may leave are skipped. -/
def Blank (blank : List Char) : Prop := ∀ c ∈ blank, c = ' '

theorem foldlM_blank {blank : List Char} (h : Blank blank) {s : Scan}
    (hs : step s ' ' = some s) : blank.foldlM step s = some s := by
  induction blank with
  | nil => rfl
  | cons c blank ih =>
    obtain ⟨rfl, hrest⟩ := List.forall_mem_cons.mp h
    rw [List.foldlM_cons, hs]
    exact ih hrest

theorem step_value_blank (outer : List Frame) :
    step (.value outer) ' ' = some (.value outer) := rfl

theorem foldlM_key {blank : List Char} (h : Blank blank) (outer : List Frame)
    (read : List (String × Json)) (key : String) (rest : List Char) :
    (quote key ++ ':' :: (blank ++ rest)).foldlM step (.key outer read) =
      rest.foldlM step (.value (.fields read key :: outer)) := by
  have hopen : step (.key outer read) '"' = some (.string (.key outer read) []) := rfl
  have hkey := foldlM_quote (.key outer read) [] key.toList
  have hcolon : step (.colon outer read key) ':' = some (.value (.fields read key :: outer)) := rfl
  rw [quote, List.cons_append, List.foldlM_cons, hopen]
  simp only [Option.bind_eq_bind, Option.bind_some]
  rw [List.foldlM_append, hkey]
  simp only [Option.bind_eq_bind, Option.bind_some, List.nil_append, Target.close,
    String.ofList_toList, List.foldlM_cons, hcolon]
  rw [List.foldlM_append, foldlM_blank h (step_value_blank _)]
  rfl

/-- The value up to its last character, and what follows. -/
theorem foldlM_append_of_settle {text : List Char} {s t : Scan} (rest : List Char)
    (h : (text.foldlM step s).map settle = some t) :
    ∃ s', settle s' = t ∧ (text ++ rest).foldlM step s = rest.foldlM step s' := by
  obtain ⟨s', hs', ht⟩ := Option.map_eq_some_iff.mp h
  exact ⟨s', ht, by rw [List.foldlM_append, hs']; rfl⟩

mutual

theorem foldlM_write {blank : List Char} (h : Blank blank) (outer : List Frame) (j : Json) :
    ((j.write blank).foldlM step (.value outer)).map settle = some (.done outer j) := by
  cases j with
  | null => rfl
  | int n => exact foldlM_writeInt outer n
  | str s =>
    have hquote := foldlM_quote (.value outer) [] s.toList
    have hopen : step (.value outer) '"' = some (.string (.value outer) []) := rfl
    rw [write, quote, List.foldlM_cons, hopen]
    simp only [Option.bind_eq_bind, Option.bind_some, hquote]
    simp [Target.close, settle]
  | arr items =>
    cases items with
    | nil => rfl
    | cons j items =>
      have hopen : step (.value outer) '[' = some (.value (.items [] :: outer)) := rfl
      obtain ⟨s, hs, hrest⟩ := foldlM_append_of_settle (writeItems blank items)
        (foldlM_write h (.items [] :: outer) j)
      rw [write, List.foldlM_cons, hopen]
      simp only [Option.bind_eq_bind, Option.bind_some]
      rw [hrest, foldlM_writeItems h outer [] j items hs]
      rfl
  | obj fields =>
    cases fields with
    | nil => rfl
    | cons field fields =>
      obtain ⟨key, j⟩ := field
      have hopen : step (.value outer) '{' = some (.key outer []) := rfl
      obtain ⟨s, hs, hrest⟩ := foldlM_append_of_settle (writeFields blank fields)
        (foldlM_write h (.fields [] key :: outer) j)
      rw [write, List.foldlM_cons, hopen]
      simp only [Option.bind_eq_bind, Option.bind_some]
      rw [foldlM_key h, hrest, foldlM_writeFields h outer [] key j fields hs]
      rfl

theorem foldlM_writeItems {blank : List Char} (h : Blank blank) (outer : List Frame)
    (read : List Json) (j : Json) (items : List Json) {s : Scan}
    (hs : settle s = .done (.items read :: outer) j) :
    (writeItems blank items).foldlM step s = some (.done outer (.arr (read ++ j :: items))) := by
  cases items with
  | nil =>
    rw [writeItems, List.foldlM_cons, step_settle hs rfl]
    rfl
  | cons j' items =>
    obtain ⟨s', hs', hrest⟩ := foldlM_append_of_settle (writeItems blank items)
      (foldlM_write h (.items (read ++ [j]) :: outer) j')
    have hcomma : close? (.items read :: outer) j ',' =
        some (.value (.items (read ++ [j]) :: outer)) := rfl
    rw [writeItems, List.foldlM_cons, step_settle hs rfl, hcomma]
    simp only [Option.bind_eq_bind, Option.bind_some]
    rw [List.foldlM_append, foldlM_blank h (step_value_blank _)]
    simp only [Option.bind_eq_bind, Option.bind_some]
    rw [hrest, foldlM_writeItems h outer (read ++ [j]) j' items hs', List.append_assoc]
    rfl

theorem foldlM_writeFields {blank : List Char} (h : Blank blank) (outer : List Frame)
    (read : List (String × Json)) (key : String) (j : Json) (fields : List (String × Json))
    {s : Scan} (hs : settle s = .done (.fields read key :: outer) j) :
    (writeFields blank fields).foldlM step s =
      some (.done outer (.obj (read ++ (key, j) :: fields))) := by
  cases fields with
  | nil =>
    rw [writeFields, List.foldlM_cons, step_settle hs rfl]
    rfl
  | cons field fields =>
    obtain ⟨key', j'⟩ := field
    obtain ⟨s', hs', hrest⟩ := foldlM_append_of_settle (writeFields blank fields)
      (foldlM_write h (.fields (read ++ [(key, j)]) key' :: outer) j')
    have hcomma : close? (.fields read key :: outer) j ',' =
        some (.key outer (read ++ [(key, j)])) := rfl
    rw [writeFields, List.foldlM_cons, step_settle hs rfl, hcomma]
    simp only [Option.bind_eq_bind, Option.bind_some]
    rw [List.foldlM_append, foldlM_blank h rfl]
    simp only [Option.bind_eq_bind, Option.bind_some]
    rw [foldlM_key h, hrest, foldlM_writeFields h outer _ key' j' fields hs', List.append_assoc]
    rfl

end

/-- Reading undoes writing. -/
theorem read_write {blank : List Char} (h : Blank blank) (j : Json) :
    read (String.ofList (j.write blank)) = some j := by
  rw [read, String.toList_ofList, foldlM_write h [] j]

end RoundTrip

/-! ## What is written holds no control character -/

/-- No control character. -/
def Printable (text : List Char) : Prop := ∀ c ∈ text, 32 ≤ c.toNat

section Printable
variable {text text' : List Char}

theorem Printable.append (h : Printable text) (h' : Printable text') : Printable (text ++ text') :=
  List.forall_mem_append.mpr ⟨h, h'⟩

theorem Printable.cons {c : Char} (hc : 32 ≤ c.toNat) (h : Printable text) :
    Printable (c :: text) := List.forall_mem_cons.mpr ⟨hc, h⟩

theorem Printable.nil : Printable [] := by simp [Printable]

theorem Blank.printable (h : Blank text) : Printable text := fun c hc => by simp [h c hc]

theorem printable_escape (c : Char) : Printable (escape c) := by
  have hshort : ∀ pair ∈ shortEscapes, 32 ≤ pair.2.toNat := by decide
  have hdigit : ∀ d < 16, 32 ≤ (Nat.digitChar d).toNat := by decide
  unfold escape
  split
  · rename_i e he
    obtain ⟨before, after, hsplit, -⟩ := List.lookup_eq_some_iff.mp he
    exact .cons (by decide) (.cons (hshort (c, e) (by simp [hsplit])) .nil)
  · split
    · rename_i hlt
      refine .cons (by decide) (.cons (by decide) (.cons (by decide) (.cons (by decide) ?_)))
      exact .cons (hdigit _ (by omega)) (.cons (hdigit _ (by omega)) .nil)
    · rename_i hge
      exact .cons (by omega) .nil

theorem printable_quote (s : String) : Printable (quote s) := by
  refine .cons (by decide) (.append (fun d hd => ?_) (.cons (by decide) .nil))
  obtain ⟨c, -, hd⟩ := List.mem_flatMap.mp hd
  exact printable_escape c d hd

theorem printable_writeInt (n : Int) : Printable (writeInt n) := by
  have hdigits : Printable (Nat.toDigits 10 n.natAbs) := fun c hc => by
    have hdigit : c.isDigit = true := Nat.isDigit_of_mem_toDigits (by omega) (Nat.le_refl 10) hc
    have hle : '0'.toNat ≤ c.toNat := (Char.isDigit_iff_toNat.mp hdigit).1
    exact Nat.le_trans (by decide) hle
  unfold writeInt
  split
  · exact .cons (by decide) hdigits
  · exact hdigits

variable {blank : List Char}

mutual

theorem printable_write (h : Blank blank) (j : Json) : Printable (j.write blank) := by
  cases j with
  | null =>
    exact .cons (by decide) (.cons (by decide) (.cons (by decide) (.cons (by decide) .nil)))
  | int n => exact printable_writeInt n
  | str s => exact printable_quote s
  | arr items =>
    cases items with
    | nil => exact .cons (by decide) (.cons (by decide) .nil)
    | cons j items =>
      exact .cons (by decide) ((printable_write h j).append (printable_writeItems h items))
  | obj fields =>
    cases fields with
    | nil => exact .cons (by decide) (.cons (by decide) .nil)
    | cons field fields =>
      obtain ⟨key, j⟩ := field
      refine .cons (by decide) ((printable_quote key).append (.cons (by decide) ?_))
      exact h.printable.append ((printable_write h j).append (printable_writeFields h fields))

theorem printable_writeItems (h : Blank blank) (items : List Json) :
    Printable (writeItems blank items) := by
  cases items with
  | nil => exact .cons (by decide) .nil
  | cons j items =>
    refine .cons (by decide) (h.printable.append ?_)
    exact (printable_write h j).append (printable_writeItems h items)

theorem printable_writeFields (h : Blank blank) (fields : List (String × Json)) :
    Printable (writeFields blank fields) := by
  cases fields with
  | nil => exact .cons (by decide) .nil
  | cons field fields =>
    obtain ⟨key, j⟩ := field
    refine .cons (by decide) (h.printable.append ((printable_quote key).append ?_))
    refine .cons (by decide) (h.printable.append ?_)
    exact (printable_write h j).append (printable_writeFields h fields)

end

end Printable

end Json

end InferenceGateway.Library
