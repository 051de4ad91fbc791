import InferenceGateway.Domain
import InferenceGateway.Library.Double
import Mathlib.Data.List.Basic

/-!
# Repositories

The statements that the registry and the semantic tier issue, as functions of the rows of
a table. The order of the rows is that of the scan, which the database is free to choose.
-/
namespace InferenceGateway.Persistence
open Library

/-! ## Backends -/

/-- The arguments of `BackendRepo.upsert`. -/
structure BackendUpsert where
  name : String
  type : BackendType
  endpoint : String
  model : String
  priority : Int
  costPer1kIn : ℚ
  costPer1kOut : ℚ
  deriving DecidableEq, Repr

namespace BackendRepo

/-- What a `numeric(10, 6)` column holds of a number. -/
def numeric (x : ℚ) : ℚ := decimal 6 x

/-- The row with the fields of an upsert. Costs are posted as doubles and rounded by their
columns. -/
def assign (row : Backend) (body : BackendUpsert) : Backend :=
  { row with
    type := body.type, endpoint := body.endpoint, model := body.model, priority := body.priority,
    costPer1kIn := numeric (double body.costPer1kIn),
    costPer1kOut := numeric (double body.costPer1kOut) }

/-- The row as the session has it after the assignments. It is not read back. -/
def posted (row : Backend) (body : BackendUpsert) : Backend :=
  { assign row body with
    costPer1kIn := double body.costPer1kIn, costPer1kOut := double body.costPer1kOut }

/-- The costs are values of their columns. -/
structure InColumns (row : Backend) : Prop where
  costPer1kIn : numeric row.costPer1kIn = row.costPer1kIn
  costPer1kOut : numeric row.costPer1kOut = row.costPer1kOut

theorem inColumns_assign (row : Backend) (body : BackendUpsert) : InColumns (assign row body) :=
  ⟨decimal_decimal 6 _, decimal_decimal 6 _⟩

/-- Of a row that the assignments leave as it is, they leave the columns as they are. -/
theorem assign_eq_of_posted {row : Backend} {body : BackendUpsert} (hcosts : InColumns row)
    (h : posted row body = row) : assign row body = row := by
  have hassign : assign row body = { posted row body with
      costPer1kIn := numeric (posted row body).costPer1kIn
      costPer1kOut := numeric (posted row body).costPer1kOut } := rfl
  rw [hassign, h, hcosts.costPer1kIn, hcosts.costPer1kOut]

/-- `BackendRepo.upsert`: the table afterwards and the row. A new row is enabled. -/
def upsert (table : List Backend) (body : BackendUpsert) (uuid4 : Uuid) : List Backend × Backend :=
  match table.find? fun row => row.name = body.name with
  | some existing =>
    (table.map fun row => if row.id = existing.id then assign row body else row,
      posted existing body)
  | none =>
    let row : Backend := ⟨uuid4, body.name, body.type, body.endpoint, body.model, body.priority,
      true, numeric (double body.costPer1kIn), numeric (double body.costPer1kOut)⟩
    (table ++ [row], posted row body)

variable {table : List Backend} {body : BackendUpsert} {uuid4 : Uuid}

/-- The row that an upsert leaves in the table. -/
def upserted (table : List Backend) (body : BackendUpsert) (uuid4 : Uuid) : Backend :=
  assign (upsert table body uuid4).2 body

theorem upserted_mem : upserted table body uuid4 ∈ (upsert table body uuid4).1 := by
  unfold upserted upsert
  split
  · rename_i existing hfind
    exact List.mem_map.mpr ⟨existing, List.mem_of_find?_eq_some hfind, if_pos rfl⟩
  · exact List.mem_append_right _ (List.mem_singleton_self _)

/-- The row has the name and all fields of the request. -/
theorem upserted_assigned : (upserted table body uuid4).name = body.name ∧
    assign (upserted table body uuid4) body = upserted table body uuid4 := by
  refine ⟨?_, rfl⟩
  unfold upserted upsert
  split
  · rename_i existing hfind
    exact (by simpa using List.find?_some hfind : existing.name = body.name)
  · rfl

/-- The row that is returned is this row before its columns have rounded its costs. -/
theorem posted_upserted :
    posted (upserted table body uuid4) body = (upsert table body uuid4).2 := by
  unfold upserted upsert
  split <;> rfl

/-- An upsert neither enables nor disables a row that is there. -/
theorem upserted_enabled_iff : (upserted table body uuid4).enabled = true ↔
    ∀ row, table.find? (fun row => row.name = body.name) = some row → row.enabled = true := by
  unfold upserted upsert
  split
  · rename_i existing hfind
    simp [hfind, posted, assign]
  · rename_i hfind
    simp [hfind, posted, assign]

/-- The table has a row of the name, and it has all fields of the request already. -/
def Unchanged (table : List Backend) (body : BackendUpsert) : Prop :=
  ∃ existing, table.find? (fun row => row.name = body.name) = some existing ∧
    ∀ row ∈ table, row.id = existing.id → assign row body = row

theorem upsert_eq_self_iff : (upsert table body uuid4).1 = table ↔ Unchanged table body := by
  unfold upsert Unchanged
  split
  · rename_i existing hfind
    simp only [hfind, Option.some.injEq, exists_eq_left']
    constructor
    · intro h row hrow hid
      have hsame := List.map_eq_map_iff.mp (h.trans (List.map_id table).symm) row hrow
      simpa [hid] using hsame
    · intro h
      refine (List.map_congr_left fun row hrow => ?_).trans (List.map_id table)
      split
      · rename_i hid
        exact h row hrow hid
      · rfl
  · rename_i hfind
    simp [hfind]

end BackendRepo

/-! ## The semantic tier -/

namespace SemanticCacheRepo

/-- How Postgres orders distances: NaN, here `none`, after every number. -/
def distanceLe : Option ℚ → Option ℚ → Bool
  | _, none => true
  | none, some _ => false
  | some a, some b => a ≤ b

theorem distanceLe_trans {x y z : Option ℚ} (hxy : distanceLe x y) (hyz : distanceLe y z) :
    distanceLe x z := by
  cases x <;> cases y <;> cases z <;> simp_all [distanceLe]
  exact hxy.trans hyz

theorem distanceLe_total (x y : Option ℚ) : distanceLe x y || distanceLe y x := by
  cases x <;> cases y <;> simp [distanceLe, le_total]

/-- `SemanticCacheRepo.find_similar` for the distance `<=>` of pgvector. A similarity that is
NaN is not below any threshold. -/
def findSimilar (cosineDistance : Embedding → Embedding → Option ℚ) (threshold : ℚ)
    (rows : List CacheEntry) (model : String) (embedding : Embedding) : Option CacheEntry :=
  let candidates := rows.filter fun row => row.model = model
  let sorted := candidates.mergeSort fun a b =>
    distanceLe (cosineDistance a.embedding embedding) (cosineDistance b.embedding embedding)
  match sorted.head? with
  | none => none
  | some entry =>
    match cosineDistance entry.embedding embedding with
    | none => some entry
    | some distance => if 1 - distance < threshold then none else some entry

/-- Only rows of the requested model are served. -/
theorem findSimilar_mem {cosineDistance : Embedding → Embedding → Option ℚ} {threshold : ℚ}
    {rows : List CacheEntry} {model : String} {embedding : Embedding} {entry : CacheEntry}
    (h : findSimilar cosineDistance threshold rows model embedding = some entry) :
    entry ∈ rows ∧ entry.model = model := by
  unfold findSimilar at h
  dsimp only at h
  split at h
  · exact absurd h (by simp)
  · rename_i first hfirst
    have hmem : first ∈ rows ∧ first.model = model := by
      simpa using List.mem_of_mem_head? hfirst
    have heq : first = entry := by
      split at h
      · exact Option.some.inj h
      · split at h
        · exact absurd h (by simp)
        · exact Option.some.inj h
    exact heq ▸ hmem

end SemanticCacheRepo

end InferenceGateway.Persistence
