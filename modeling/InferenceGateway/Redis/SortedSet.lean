import InferenceGateway.Domain
import Mathlib.Data.List.Sort

/-!
# Redis sorted sets with a deadline

A sorted set holds each member once, ordered by score and then by the member's text.
`EXPIRE` gives the key a deadline which `ZADD` and `ZREM` do not move; a key past its
deadline is gone, and so is a set that becomes empty, together with its deadline.
-/
namespace InferenceGateway.Redis

structure Member where
  score : Time
  name : String
  deriving DecidableEq, Repr

/-- The order of `ZRANGE`. -/
def Member.Before (a b : Member) : Prop := a.score < b.score ∨ (a.score = b.score ∧ a.name ≤ b.name)

instance (a b : Member) : Decidable (Member.Before a b) := by
  unfold Member.Before
  infer_instance

/-- A key that holds a sorted set. The empty set is the key that does not exist. -/
structure SortedSet where
  members : List Member
  deadline : Option Time
  deadline_of_empty : members = [] → deadline = none
  deriving DecidableEq, Repr

namespace SortedSet

def empty : SortedSet := ⟨[], none, fun _ => rfl⟩

/-- Members that are left after a command, under the deadline they had. -/
def keep (members : List Member) (deadline : Option Time) : SortedSet :=
  ⟨members, if members = [] then none else deadline, fun h => if_pos h⟩

variable (s : SortedSet)

/-- The key has a deadline and it has passed. -/
def Expired (now : Time) : Prop := ∃ d, s.deadline = some d ∧ d < now

instance (now : Time) : Decidable (s.Expired now) :=
  decidable_of_iff (∃ d ∈ s.deadline, d < now) Iff.rfl

/-- What a command that runs at `now` finds. -/
def touch (now : Time) : SortedSet :=
  match s.deadline with
  | none => s
  | some d => if d < now then empty else s

/-- `ZREMRANGEBYSCORE key -inf cutoff`. -/
def zremrangebyscore (cutoff : Time) : SortedSet :=
  keep (s.members.filter fun m => cutoff < m.score) s.deadline

def zrem (name : String) : SortedSet :=
  keep (s.members.filter fun m => m.name ≠ name) s.deadline

/-- `ZADD key score name`; a member that is already there only gets the new score. -/
def zadd (score : Time) (name : String) : SortedSet :=
  keep ((s.members.filter fun m => m.name ≠ name).orderedInsert Member.Before ⟨score, name⟩)
    s.deadline

/-- `EXPIRE key seconds`, issued at `now`; a deadline that is not ahead deletes the key. -/
def expire (now : Time) (seconds : Int) : SortedSet :=
  if seconds ≤ 0 then empty else keep s.members (some (now + seconds))

@[simp] theorem members_keep (members : List Member) (deadline : Option Time) :
    (keep members deadline).members = members := rfl

theorem touch_of_expired {now : Time} (h : s.Expired now) : s.touch now = empty := by
  obtain ⟨d, hd, hlt⟩ := h
  simp [touch, hd, hlt]

theorem touch_of_not_expired {now : Time} (h : ¬ s.Expired now) : s.touch now = s := by
  unfold touch
  split
  · rfl
  · rename_i d hd
    rw [if_neg fun hlt => h ⟨d, hd, hlt⟩]

/-- What holds of the key and of the key that does not exist holds of what is found. -/
theorem touch_intro {P : SortedSet → Prop} (hempty : P empty) (h : P s) (now : Time) :
    P (s.touch now) := by
  by_cases hexp : s.Expired now
  · rwa [s.touch_of_expired hexp]
  · rwa [s.touch_of_not_expired hexp]

@[simp] theorem members_zremrangebyscore (cutoff : Time) :
    (s.zremrangebyscore cutoff).members = s.members.filter fun m => cutoff < m.score := rfl

@[simp] theorem members_zrem (name : String) :
    (s.zrem name).members = s.members.filter fun m => m.name ≠ name := rfl

theorem zadd_members_perm (score : Time) (name : String) :
    (s.zadd score name).members.Perm
      (⟨score, name⟩ :: s.members.filter fun m => m.name ≠ name) :=
  List.perm_orderedInsert _ _ _

theorem members_zadd_ne_nil (score : Time) (name : String) :
    (s.zadd score name).members ≠ [] := fun h => by
  simpa [h] using s.zadd_members_perm score name

@[simp] theorem deadline_zadd (score : Time) (name : String) :
    (s.zadd score name).deadline = s.deadline := if_neg (s.members_zadd_ne_nil score name)

/-- A command that removes members never adds or moves a deadline. -/
theorem deadline_keep_eq {members : List Member} {deadline : Option Time} {d : Time}
    (h : (keep members deadline).deadline = some d) : members ≠ [] ∧ deadline = some d := by
  simp only [keep] at h
  split at h
  · exact absurd h (by simp)
  · exact ⟨‹_›, h⟩

theorem members_expire {now : Time} {seconds : Int} (h : 0 < seconds) :
    (s.expire now seconds).members = s.members := by
  rw [expire, if_neg (not_le.mpr h), members_keep]

theorem deadline_expire {now : Time} {seconds : Int} (h : 0 < seconds) (hne : s.members ≠ []) :
    (s.expire now seconds).deadline = some (now + seconds) := by
  rw [expire, if_neg (not_le.mpr h)]
  exact if_neg hne

/-! ## The order of `ZRANGE` -/

/-- The scores do not decrease. -/
def Ordered : Prop := s.members.Pairwise fun a b => a.score ≤ b.score

theorem pairwise_orderedInsert {members : List Member}
    (h : members.Pairwise fun a b => a.score ≤ b.score) (m : Member) :
    (members.orderedInsert Member.Before m).Pairwise fun a b => a.score ≤ b.score := by
  induction members with
  | nil => exact List.pairwise_singleton _ _
  | cons m' members ih =>
    obtain ⟨hhead, htail⟩ := List.pairwise_cons.mp h
    rw [List.orderedInsert_cons]
    split
    · rename_i hbefore
      have hle : m.score ≤ m'.score := hbefore.elim le_of_lt fun heq => heq.1.le
      refine List.pairwise_cons.mpr ⟨fun b hb => ?_, h⟩
      obtain rfl | hb := List.mem_cons.mp hb
      · exact hle
      · exact hle.trans (hhead b hb)
    · rename_i hafter
      refine List.pairwise_cons.mpr ⟨fun b hb => ?_, ih htail⟩
      obtain rfl | hb := List.mem_cons.mp ((List.perm_orderedInsert _ _ _).mem_iff.mp hb)
      · exact not_lt.mp fun hlt => hafter (.inl hlt)
      · exact hhead b hb

variable {s}

theorem Ordered.filter (h : s.Ordered) {p : Member → Bool} {deadline : Option Time} :
    (keep (s.members.filter p) deadline).Ordered := h.sublist List.filter_sublist

theorem Ordered.touch (h : s.Ordered) (now : Time) : (s.touch now).Ordered :=
  s.touch_intro List.Pairwise.nil h now

theorem Ordered.zadd (h : s.Ordered) (score : Time) (name : String) : (s.zadd score name).Ordered :=
  pairwise_orderedInsert (h.sublist List.filter_sublist) _

end SortedSet

end InferenceGateway.Redis
