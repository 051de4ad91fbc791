import Mathlib.Algebra.BigOperators.Group.List.Basic
import Mathlib.Algebra.Order.Group.Defs

/-!
# A time limit over waits and holds

A loop under one time limit waits for its source and is then held by whoever takes what it
has got, turn after turn, and waits a last time for the end of the source. The limit ends a
wait in which it passes. What a limit ends that passes during a hold is a parameter.
-/
namespace InferenceGateway.Library

variable {T : Type} [AddCommMonoid T]

/-- A wait and the hold after it. -/
structure Turn (T : Type) where
  wait : T
  hold : T

/-- All the time that the turns take. -/
def spent (turns : List (Turn T)) : T := (turns.map fun turn => turn.wait + turn.hold).sum

@[simp] theorem spent_nil : spent ([] : List (Turn T)) = 0 := rfl

@[simp] theorem spent_cons (turn : Turn T) (turns : List (Turn T)) :
    spent (turn :: turns) = turn.wait + turn.hold + spent turns := by
  simp [spent]

/-- What a limit ends that passes during a hold. -/
inductive Passing where
  | nextWait | hold | nothing
  deriving DecidableEq, Repr

variable [LinearOrder T]

/-- The limit ends a wait that begins now. -/
def TimesOut (passing : Passing) (deadline now wait : T) : Prop :=
  deadline < now + wait ∧ (now ≤ deadline ∨ passing = .nextWait)

/-- The limit ends a hold that begins now. -/
def Interrupts (passing : Passing) (deadline now hold : T) : Prop :=
  deadline < now + hold ∧ now ≤ deadline ∧ passing = .hold

instance (passing : Passing) (deadline now wait : T) :
    Decidable (TimesOut passing deadline now wait) := inferInstanceAs (Decidable (_ ∧ _))

instance (passing : Passing) (deadline now hold : T) :
    Decidable (Interrupts passing deadline now hold) := inferInstanceAs (Decidable (_ ∧ _))

/-- The limit ends none of the waits and none of the holds. -/
def InTime (passing : Passing) (deadline : T) : T → List (Turn T) → T → Prop
  | now, [], last => ¬ TimesOut passing deadline now last
  | now, turn :: turns, last => ¬ TimesOut passing deadline now turn.wait ∧
      ¬ Interrupts passing deadline (now + turn.wait) turn.hold ∧
      InTime passing deadline (now + turn.wait + turn.hold) turns last

instance decidableInTime (passing : Passing) (deadline : T) :
    (now : T) → (turns : List (Turn T)) → (last : T) →
      Decidable (InTime passing deadline now turns last)
  | now, [], last => inferInstanceAs (Decidable (¬ TimesOut passing deadline now last))
  | now, turn :: turns, last =>
    have := decidableInTime passing deadline (now + turn.wait + turn.hold) turns last
    inferInstanceAs (Decidable (_ ∧ _ ∧ _))

section Order
variable [IsOrderedAddMonoid T] {passing : Passing} {deadline now last : T} {turns : List (Turn T)}

theorem spent_nonneg (h : ∀ turn ∈ turns, 0 ≤ turn.wait ∧ 0 ≤ turn.hold) : 0 ≤ spent turns := by
  induction turns with
  | nil => exact le_rfl
  | cons turn turns ih =>
    rw [List.forall_mem_cons] at h
    rw [spent_cons]
    exact add_nonneg (add_nonneg h.1.1 h.1.2) (ih h.2)

/-- A loop that is done before the limit is not ended by it. -/
theorem inTime_of_le (hturns : ∀ turn ∈ turns, 0 ≤ turn.wait ∧ 0 ≤ turn.hold) (hlast : 0 ≤ last)
    (h : now + spent turns + last ≤ deadline) : InTime passing deadline now turns last := by
  induction turns generalizing now with
  | nil =>
    rw [spent_nil, add_zero] at h
    exact fun hover => absurd h (not_le.mpr hover.1)
  | cons turn turns ih =>
    rw [List.forall_mem_cons] at hturns
    rw [spent_cons] at h
    have hrest : now + turn.wait + turn.hold + spent turns + last ≤ deadline := by
      simpa only [add_assoc] using h
    have hheld : now + turn.wait + turn.hold ≤ deadline := calc
      now + turn.wait + turn.hold
        ≤ now + turn.wait + turn.hold + (spent turns + last) :=
          le_add_of_nonneg_right (add_nonneg (spent_nonneg hturns.2) hlast)
      _ = now + turn.wait + turn.hold + spent turns + last := (add_assoc ..).symm
      _ ≤ deadline := hrest
    have hwaited : now + turn.wait ≤ deadline :=
      (le_add_of_nonneg_right hturns.1.2).trans hheld
    exact ⟨fun hover => absurd hover.1 (not_lt.mpr hwaited),
      fun hover => absurd hover.1 (not_lt.mpr hheld), ih hturns.2 hrest⟩

omit [IsOrderedAddMonoid T] in
/-- If the limit also ends the next wait after a hold, a loop must be done before it. -/
theorem le_of_inTime_nextWait (h : InTime .nextWait deadline now turns last) :
    now + spent turns + last ≤ deadline := by
  induction turns generalizing now with
  | nil =>
    rw [spent_nil, add_zero]
    exact not_lt.mp fun hlt => h ⟨hlt, .inr rfl⟩
  | cons turn turns ih =>
    have hrest := ih h.2.2
    rw [spent_cons]
    simpa only [add_assoc] using hrest

omit [IsOrderedAddMonoid T] in
/-- The same if the limit ends holds. -/
theorem le_of_inTime_hold (hnow : now ≤ deadline) (h : InTime .hold deadline now turns last) :
    now + spent turns + last ≤ deadline := by
  induction turns generalizing now with
  | nil =>
    rw [spent_nil, add_zero]
    exact not_lt.mp fun hlt => h ⟨hlt, .inl hnow⟩
  | cons turn turns ih =>
    obtain ⟨hwait, hhold, hlater⟩ := h
    have hwaited : now + turn.wait ≤ deadline := not_lt.mp fun hlt => hwait ⟨hlt, .inl hnow⟩
    have hheld : now + turn.wait + turn.hold ≤ deadline :=
      not_lt.mp fun hlt => hhold ⟨hlt, hwaited, rfl⟩
    have hrest := ih hheld hlater
    rw [spent_cons]
    simpa only [add_assoc] using hrest

/-- Unless a limit that passes during a hold ends nothing, a loop is not ended by the limit
exactly if it is done before it. -/
theorem inTime_iff_le (hpassing : passing ≠ .nothing)
    (hturns : ∀ turn ∈ turns, 0 ≤ turn.wait ∧ 0 ≤ turn.hold) (hlast : 0 ≤ last)
    (hnow : now ≤ deadline) :
    InTime passing deadline now turns last ↔ now + spent turns + last ≤ deadline := by
  refine ⟨fun h => ?_, inTime_of_le hturns hlast⟩
  cases passing with
  | nextWait => exact le_of_inTime_nextWait h
  | hold => exact le_of_inTime_hold hnow h
  | nothing => exact absurd rfl hpassing

end Order

section Shift
variable {T : Type} [AddCommGroup T] [LinearOrder T] [IsOrderedAddMonoid T] {passing : Passing}

theorem inTime_shift (origin deadline now : T) (turns : List (Turn T)) (last : T) :
    InTime passing (origin + deadline) (origin + now) turns last ↔
      InTime passing deadline now turns last := by
  have hover : ∀ now wait : T, TimesOut passing (origin + deadline) (origin + now) wait ↔
      TimesOut passing deadline now wait := fun now wait => by
    unfold TimesOut
    rw [add_assoc, add_lt_add_iff_left, add_le_add_iff_left]
  have hheld : ∀ now hold : T, Interrupts passing (origin + deadline) (origin + now) hold ↔
      Interrupts passing deadline now hold := fun now hold => by
    unfold Interrupts
    rw [add_assoc, add_lt_add_iff_left, add_le_add_iff_left]
  induction turns generalizing now with
  | nil => exact not_congr (hover now last)
  | cons turn turns ih =>
    refine and_congr (not_congr (hover now turn.wait)) ?_
    rw [add_assoc origin, add_assoc origin]
    exact and_congr (not_congr (hheld _ turn.hold)) (ih _)

/-- The limit counts from the beginning. -/
theorem inTime_origin (origin deadline : T) (turns : List (Turn T)) (last : T) :
    InTime passing (origin + deadline) origin turns last ↔
      InTime passing deadline 0 turns last := by
  have hshift : InTime passing (origin + deadline) (origin + 0) turns last ↔ _ :=
    inTime_shift origin deadline 0 turns last
  rwa [add_zero] at hshift

end Shift

end InferenceGateway.Library
