import InferenceGateway.Domain
import Mathlib.Data.List.Nodup

/-!
# The table of API keys

A row of `api_key` is found by the hash of its raw key, which is unique. What the constraints of
the table refuse is never stored, so every row holds an `ApiKey`.
-/
namespace InferenceGateway.Persistence

structure ApiKeyRow where
  apiKey : ApiKey
  keyHash : String
  name : String
  enabled : Bool := true

namespace ApiKeyRepo

/-- `ApiKeyRepo.get_by_hash`. -/
def getByHash (table : List ApiKeyRow) (keyHash : String) : Option ApiKey :=
  (table.find? fun row => row.keyHash = keyHash ∧ row.enabled = true).map ApiKeyRow.apiKey

/-- `ApiKeyRepo.create`: the table afterwards and the row, or none if the database refuses it, for
a check, the range of an `Integer`, the length of the hash, a null character, or a duplicate. -/
def create (table : List ApiKeyRow) (name keyHash : String) (tokenBudget windowSeconds : Int)
    (uuid4 : Uuid) : Option (List ApiKeyRow × ApiKeyRow) :=
  if h : (0 < tokenBudget ∧ tokenBudget ≤ 2147483647) ∧
      0 < windowSeconds ∧ windowSeconds ≤ 2147483647 then
    if keyHash.length ≤ 64 ∧ '\x00' ∉ name.toList ∧ keyHash ∉ table.map ApiKeyRow.keyHash ∧
        uuid4 ∉ table.map fun row => row.apiKey.id then
      let row : ApiKeyRow :=
        { apiKey := ⟨uuid4, tokenBudget, windowSeconds, h.1.1, h.1.2, h.2.1, h.2.2⟩, keyHash, name }
      some (table ++ [row], row)
    else none
  else none

/-- An operator switches a key on or off. -/
def setEnabled (table : List ApiKeyRow) (id : Uuid) (enabled : Bool) : List ApiKeyRow :=
  table.map fun row => if row.apiKey.id = id then { row with enabled } else row

variable {table : List ApiKeyRow}

/-- What an insert adds is new and made of what it was given. -/
theorem create_cases {name keyHash : String} {tokenBudget windowSeconds : Int} {uuid4 : Uuid}
    {table' : List ApiKeyRow} {row : ApiKeyRow}
    (h : create table name keyHash tokenBudget windowSeconds uuid4 = some (table', row)) :
    table' = table ++ [row] ∧ keyHash ∉ table.map ApiKeyRow.keyHash ∧
      (uuid4 ∉ table.map fun row => row.apiKey.id) ∧ row.apiKey.id = uuid4 ∧
      row.apiKey.tokenBudget = tokenBudget ∧ row.apiKey.windowSeconds = windowSeconds ∧
      row.keyHash = keyHash ∧ row.name = name ∧ row.enabled = true := by
  unfold create at h
  split at h
  · split at h
    · rename_i hunique
      obtain ⟨rfl, rfl⟩ := Prod.mk.inj (Option.some.inj h)
      exact ⟨rfl, hunique.2.2.1, hunique.2.2.2, rfl, rfl, rfl, rfl, rfl, rfl⟩
    · simp at h
  · simp at h

/-- With unique hashes a lookup finds the row itself. -/
theorem getByHash_eq_some_iff (hunique : (table.map ApiKeyRow.keyHash).Nodup) {keyHash : String}
    {apiKey : ApiKey} : getByHash table keyHash = some apiKey ↔
      ∃ row ∈ table, row.keyHash = keyHash ∧ row.enabled = true ∧ row.apiKey = apiKey := by
  unfold getByHash
  rw [Option.map_eq_some_iff]
  constructor
  · rintro ⟨row, hfind, rfl⟩
    have hfound : row.keyHash = keyHash ∧ row.enabled = true := by
      simpa using List.find?_some hfind
    exact ⟨row, List.mem_of_find?_eq_some hfind, hfound.1, hfound.2, rfl⟩
  · rintro ⟨row, hrow, rfl, henabled, rfl⟩
    cases hfind : table.find? fun r => r.keyHash = row.keyHash ∧ r.enabled = true with
    | none =>
      have hnone := List.find?_eq_none.mp hfind row hrow
      simp [henabled] at hnone
    | some first =>
      have hfound : first.keyHash = row.keyHash ∧ first.enabled = true := by
        simpa using List.find?_some hfind
      have hsame : first = row := List.inj_on_of_nodup_map hunique
        (List.mem_of_find?_eq_some hfind) hrow hfound.1
      exact ⟨first, rfl, congrArg ApiKeyRow.apiKey hsame⟩

end ApiKeyRepo

end InferenceGateway.Persistence
