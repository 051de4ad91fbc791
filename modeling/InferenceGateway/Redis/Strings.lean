import InferenceGateway.Domain

/-!
# Redis string keys

`SET key value EX seconds` and `GET key`. A key past its deadline is gone.
-/
namespace InferenceGateway.Redis

/-- A value and the time up to which it is kept. -/
structure Stored (α : Type) where
  value : α
  deadline : Time
  deriving DecidableEq, Repr

abbrev Strings (α : Type) := String → Option (Stored α)

namespace Strings

variable {α : Type} (db : Strings α) (now : Time)

def empty : Strings α := fun _ => none

def get (key : String) : Option α :=
  match db key with
  | none => none
  | some stored => if stored.deadline < now then none else some stored.value

def setEx (key : String) (value : α) (seconds : Int) : Strings α :=
  fun k => if k = key then some ⟨value, now + seconds⟩ else db k

@[simp] theorem get_empty (key : String) : (empty : Strings α).get now key = none := rfl

theorem get_setEx_of_ne {key k : String} (h : k ≠ key) (value : α) (seconds : Int) (t : Time) :
    (db.setEx now key value seconds).get t k = db.get t k := by
  simp [get, setEx, h]

theorem get_setEx_self (key : String) (value : α) (seconds : Int) (t : Time) :
    (db.setEx now key value seconds).get t key =
      if now + seconds < t then none else some value := by
  simp [get, setEx]

end Strings

end InferenceGateway.Redis
