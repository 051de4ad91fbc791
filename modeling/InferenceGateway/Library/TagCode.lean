import Mathlib.Data.List.Basic
import Mathlib.Data.List.Infix

/-!
# Unescaped tagged segments

Segments are written one after the other, each as a marker (a separator and the tail
of its tag) followed by its content. Contents are not escaped, so a content may itself
hold markers and the text does not determine the segments. `cut` opens a new segment at
every marker of a content; two lists of segments are written as the same text exactly
when cutting all their contents gives the same list.
-/
namespace InferenceGateway.Library

/-- Tags whose tails are free of the separator and can be told apart by reading on. -/
structure TagCode (τ α : Type) where
  sep : α
  tail : τ → List α
  tags : List τ
  complete : ∀ t, t ∈ tags
  sep_not_mem : ∀ t, sep ∉ tail t
  unambiguous : ∀ t u cs, tail t <+: cs → tail u <+: cs → t = u

namespace TagCode

variable {τ α : Type} (C : TagCode τ α)

def marker (t : τ) : List α := C.sep :: C.tail t

/-- The text of a list of segments. -/
def text (ts : List (τ × List α)) : List α := ts.flatMap fun p => C.marker p.1 ++ p.2

@[simp] theorem text_cons (p : τ × List α) (ts : List (τ × List α)) :
    C.text (p :: ts) = C.sep :: (C.tail p.1 ++ (p.2 ++ C.text ts)) := by
  simp [text, marker]

theorem text_append (ts us : List (τ × List α)) : C.text (ts ++ us) = C.text ts ++ C.text us := by
  simp [text]

variable [DecidableEq α]

/-- The tag whose marker starts here. -/
def tagAt (cs : List α) : Option τ := C.tags.find? fun t => (C.marker t).isPrefixOf cs

/-- Read a content after skipping `n` symbols: what precedes its first marker, and a
segment for each marker. -/
def cutFrom : Nat → List α → List α × List (τ × List α)
  | _, [] => ([], [])
  | n + 1, _ :: cs => cutFrom n cs
  | 0, a :: cs =>
    match C.tagAt (a :: cs) with
    | some t => ([], (t, (cutFrom (C.tail t).length cs).1) :: (cutFrom (C.tail t).length cs).2)
    | none => (a :: (cutFrom 0 cs).1, (cutFrom 0 cs).2)

def cut (cs : List α) : List α × List (τ × List α) := C.cutFrom 0 cs

/-- Cut every content at every marker it holds. -/
def canonical (ts : List (τ × List α)) : List (τ × List α) :=
  ts.flatMap fun p => (p.1, (C.cut p.2).1) :: (C.cut p.2).2

@[simp] theorem canonical_cons (p : τ × List α) (ts : List (τ × List α)) :
    C.canonical (p :: ts) = (p.1, (C.cut p.2).1) :: ((C.cut p.2).2 ++ C.canonical ts) := by
  simp [canonical]

theorem cutFrom_eq_cut_drop (n : Nat) (cs : List α) : C.cutFrom n cs = C.cut (cs.drop n) := by
  induction cs generalizing n with
  | nil => cases n <;> simp [cut, cutFrom]
  | cons a cs ih =>
    cases n with
    | zero => rfl
    | succ n => simpa [cutFrom] using ih n

theorem tagAt_eq_some {cs : List α} {t : τ} : C.tagAt cs = some t ↔ C.marker t <+: cs := by
  constructor
  · intro h
    simpa using List.find?_some h
  · intro h
    obtain ⟨u, hu⟩ : ∃ u, C.tagAt cs = some u :=
      Option.isSome_iff_exists.mp <| List.find?_isSome.mpr ⟨t, C.complete t, by simpa using h⟩
    have hpre : C.marker u <+: cs := by simpa using List.find?_some hu
    cases cs with
    | nil => simp [marker] at h
    | cons a cs =>
      have ht := (List.cons_prefix_cons.mp h).2
      have hu' := (List.cons_prefix_cons.mp hpre).2
      rw [hu, C.unambiguous u t cs hu' ht]

/-- A marker that starts inside a content ends inside it: the next separator is not
part of its tail. -/
theorem tagAt_append_sep (a : α) (cs rest : List α) :
    C.tagAt (a :: cs ++ C.sep :: rest) = C.tagAt (a :: cs) := by
  refine Option.ext fun t => ?_
  rw [C.tagAt_eq_some, C.tagAt_eq_some]
  refine ⟨fun h => ?_, fun h => h.trans (List.prefix_append _ _)⟩
  rcases List.prefix_or_prefix_of_prefix h (List.prefix_append _ _) with h' | ⟨d, hd⟩
  · exact h'
  · cases d with
    | nil => simp [← hd]
    | cons b d =>
      obtain ⟨e, he⟩ := h
      rw [← hd] at he
      simp only [List.append_assoc, List.cons_append, List.append_cancel_left_eq,
        List.cons.injEq, true_and] at he
      have hmem : C.sep ∈ C.tail t := by
        simp only [marker, List.cons_append, List.cons.injEq] at hd
        rw [← hd.2, ← he.1]
        simp
      exact absurd hmem (C.sep_not_mem t)

theorem cut_marker (t : τ) (cs : List α) :
    C.cut (C.sep :: (C.tail t ++ cs)) = ([], (t, (C.cut cs).1) :: (C.cut cs).2) := by
  have ht : C.tagAt (C.sep :: (C.tail t ++ cs)) = some t :=
    C.tagAt_eq_some.mpr ⟨cs, by simp [marker]⟩
  rw [cut, cutFrom, ht]
  simp [cutFrom_eq_cut_drop]

/-- The markers of a content are cut in the same way when more segments follow it. -/
theorem cut_append_marker (cs : List α) (t : τ) (ds : List α) :
    C.cut (cs ++ C.sep :: (C.tail t ++ ds)) =
      ((C.cut cs).1, (C.cut cs).2 ++ (t, (C.cut ds).1) :: (C.cut ds).2) := by
  induction hn : cs.length using Nat.strong_induction_on generalizing cs with
  | _ n ih =>
    subst hn
    cases cs with
    | nil => exact C.cut_marker t ds
    | cons a cs =>
      have htag := C.tagAt_append_sep a cs (C.tail t ++ ds)
      cases h : C.tagAt (a :: cs) with
      | none =>
        have hrest := ih cs.length (by simp) cs rfl
        rw [h, List.cons_append] at htag
        rw [cut] at hrest
        rw [cut, List.cons_append, cutFrom, htag, cut, cutFrom, h]
        simp [hrest, cut]
      | some u =>
        obtain ⟨es, hes⟩ := C.tagAt_eq_some.mp h
        have hcs : cs = C.tail u ++ es := by
          simpa [marker] using (List.cons.inj hes).2.symm
        have ha : a = C.sep := (List.cons.inj hes).1.symm
        subst hcs ha
        have hrest := ih es.length (by grind) es rfl
        simp only [List.cons_append, List.append_assoc]
        rw [cut_marker, cut_marker, hrest]
        simp

/-- Cutting loses nothing. -/
theorem cut_text (cs : List α) : (C.cut cs).1 ++ C.text (C.cut cs).2 = cs := by
  induction hn : cs.length using Nat.strong_induction_on generalizing cs with
  | _ n ih =>
    subst hn
    cases cs with
    | nil => simp [cut, cutFrom, text]
    | cons a cs =>
      cases h : C.tagAt (a :: cs) with
      | none =>
        have hrest := ih cs.length (by simp) cs rfl
        rw [cut] at hrest
        rw [cut, cutFrom, h]
        simpa using hrest
      | some u =>
        obtain ⟨es, hes⟩ := C.tagAt_eq_some.mp h
        have hcs : cs = C.tail u ++ es := by
          simpa [marker] using (List.cons.inj hes).2.symm
        have ha : a = C.sep := (List.cons.inj hes).1.symm
        subst hcs ha
        have hrest := ih es.length (by grind) es rfl
        rw [cut_marker]
        simp [hrest]

theorem text_canonical (ts : List (τ × List α)) : C.text (C.canonical ts) = C.text ts := by
  induction ts with
  | nil => rfl
  | cons p ts ih => simp [text_append, ih, ← List.append_assoc, cut_text]

theorem cut_append_text (cs : List α) (ts : List (τ × List α)) :
    C.cut (cs ++ C.text ts) = ((C.cut cs).1, (C.cut cs).2 ++ C.canonical ts) := by
  induction ts generalizing cs with
  | nil => simp [text, canonical]
  | cons p ts ih => rw [text_cons, cut_append_marker, ih, canonical_cons]

/-- Two lists of segments are written as the same text exactly when they become equal
once all contents are cut. -/
theorem text_eq_text_iff {ts us : List (τ × List α)} :
    C.text ts = C.text us ↔ C.canonical ts = C.canonical us := by
  constructor
  · intro h
    have hcut := congrArg C.cut h
    rw [← List.nil_append (C.text ts), ← List.nil_append (C.text us), C.cut_append_text,
      C.cut_append_text] at hcut
    exact List.append_cancel_left (Prod.ext_iff.mp hcut).2
  · intro h
    rw [← C.text_canonical ts, h, C.text_canonical]

/-- A list of segments whose contents hold no marker is already cut. -/
theorem canonical_eq_self {ts : List (τ × List α)}
    (h : ∀ p ∈ ts, (C.cut p.2).2 = []) : C.canonical ts = ts := by
  induction ts with
  | nil => rfl
  | cons p ts ih =>
    have hp := h p List.mem_cons_self
    have hfirst : (C.cut p.2).1 = p.2 := by simpa [hp, text] using C.cut_text p.2
    rw [canonical_cons, hp, hfirst, ih fun q hq => h q (List.mem_cons_of_mem _ hq)]
    rfl

end TagCode

end InferenceGateway.Library
