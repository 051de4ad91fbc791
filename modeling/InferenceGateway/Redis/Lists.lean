import Mathlib.Algebra.Order.Ring.Int
import Mathlib.Data.List.Basic
import Mathlib.Logic.Function.Basic

/-!
# Redis list keys

`LPUSH`, `LTRIM` and `LRANGE`. An index from -1 down counts from the end of the list. A
list that becomes empty is the key that does not exist.
-/
namespace InferenceGateway.Redis

variable {α : Type}

/-- The elements from one index to another, both included. -/
def range (l : List α) (start stop : Int) : List α :=
  let start := if start < 0 then max 0 (start + l.length) else start
  let stop := if stop < 0 then stop + l.length else stop
  (l.drop start.toNat).take (stop - start + 1).toNat

theorem range_all (l : List α) : range l 0 (-1) = l := by
  simp [range]

/-- The first elements, as many as there are in a window. -/
theorem range_window (l : List α) {size : Int} (h : 1 ≤ size) :
    range l 0 (size - 1) = l.take size.toNat := by
  have hstop : ¬ size - 1 < 0 := by omega
  simp [range, hstop]

abbrev Lists (α : Type) := String → List α

namespace Lists

variable (db : Lists α) (key : String)

def empty : Lists α := fun _ => []

def lpush (value : α) : Lists α := Function.update db key (value :: db key)

def ltrim (start stop : Int) : Lists α := Function.update db key (range (db key) start stop)

def lrange (start stop : Int) : List α := range (db key) start stop

@[simp] theorem lpush_self (value : α) : db.lpush key value key = value :: db key :=
  Function.update_self ..

theorem lpush_of_ne {key' : String} (h : key' ≠ key) (value : α) :
    db.lpush key value key' = db key' := Function.update_of_ne h _ _

@[simp] theorem ltrim_self (start stop : Int) :
    db.ltrim key start stop key = range (db key) start stop := Function.update_self ..

theorem ltrim_of_ne {key' : String} (h : key' ≠ key) (start stop : Int) :
    db.ltrim key start stop key' = db key' := Function.update_of_ne h _ _

end Lists

end InferenceGateway.Redis
