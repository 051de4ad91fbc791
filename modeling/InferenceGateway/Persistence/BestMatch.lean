import InferenceGateway.Library.SortedHead
import InferenceGateway.Persistence.Repositories
import Mathlib.Data.Rat.Sqrt

/-!
# Which row a similarity lookup finds

The nearest row is chosen by the `ORDER BY` of the statement and the threshold is tested
afterwards, as `similarity < threshold`. A row whose similarity is not a number comes last
in the one and passes the other.
-/
namespace InferenceGateway.Persistence.SemanticCacheRepo
open Library

variable (cosineDistance : Embedding → Embedding → Option ℚ) (threshold : ℚ)
  (rows : List CacheEntry) (model : String) (embedding : Embedding)

/-- `1 - embedding <=> :vector`, or `none` if that is not a number. -/
def similarity (entry : CacheEntry) : Option ℚ :=
  (cosineDistance entry.embedding embedding).map fun distance => 1 - distance

/-- The row has the model and a similarity that is a number, not below the threshold and
not below that of any other row of the model. -/
def BestMatch (entry : CacheEntry) : Prop :=
  entry ∈ rows ∧ entry.model = model ∧
    ∃ s, similarity cosineDistance embedding entry = some s ∧ threshold ≤ s ∧
      ∀ row ∈ rows, row.model = model →
        ∀ s', similarity cosineDistance embedding row = some s' → s' ≤ s

/-- No row of the model reaches the threshold. -/
def NoMatch : Prop :=
  ∀ row ∈ rows, row.model = model →
    ∀ s, similarity cosineDistance embedding row = some s → s < threshold

/-- What a lookup may answer with. -/
def Sound : Option CacheEntry → Prop
  | some entry => BestMatch cosineDistance threshold rows model embedding entry
  | none => NoMatch cosineDistance threshold rows model embedding

/-- Some row of the model can be compared with the query. -/
def Comparable : Prop :=
  ∃ row ∈ rows, row.model = model ∧ (cosineDistance row.embedding embedding).isSome

/-- The first row of the statement, which none of the model is nearer than. -/
def nearest : Option CacheEntry :=
  ((rows.filter fun row => row.model = model).mergeSort fun a b =>
    distanceLe (cosineDistance a.embedding embedding)
      (cosineDistance b.embedding embedding)).head?

variable {cosineDistance threshold rows model embedding} {first : CacheEntry}

theorem nearest_eq_none :
    nearest cosineDistance rows model embedding = none ↔ ∀ row ∈ rows, row.model ≠ model := by
  unfold nearest
  rw [List.head?_eq_none_iff, ← List.length_eq_zero_iff, List.length_mergeSort,
    List.length_eq_zero_iff, List.filter_eq_nil_iff]
  simp

theorem nearest_least (h : nearest cosineDistance rows model embedding = some first) :
    first ∈ rows ∧ first.model = model ∧ ∀ row ∈ rows, row.model = model →
      distanceLe (cosineDistance first.embedding embedding)
        (cosineDistance row.embedding embedding) := by
  obtain ⟨hmem, hleast⟩ := le_of_head?_mergeSort (by intro a b c; exact distanceLe_trans)
    (by intro a b; exact distanceLe_total _ _) h
  simp only [List.mem_filter, decide_eq_true_eq, and_imp] at hmem hleast
  exact ⟨hmem.1, hmem.2, hleast⟩

/-- A nearest row without a similarity passes the test of the threshold. -/
theorem findSimilar_of_nan (h : nearest cosineDistance rows model embedding = some first)
    (hnan : cosineDistance first.embedding embedding = none) :
    findSimilar cosineDistance threshold rows model embedding = some first := by
  unfold nearest at h
  simp only [findSimilar, h, hnan]

theorem findSimilar_of_number {distance : ℚ}
    (h : nearest cosineDistance rows model embedding = some first)
    (hnumber : cosineDistance first.embedding embedding = some distance) :
    findSimilar cosineDistance threshold rows model embedding =
      if 1 - distance < threshold then none else some first := by
  unfold nearest at h
  simp only [findSimilar, h, hnumber]

theorem findSimilar_of_nothing (h : nearest cosineDistance rows model embedding = none) :
    findSimilar cosineDistance threshold rows model embedding = none := by
  unfold nearest at h
  simp only [findSimilar, h]

/-- If the nearest row has no similarity, then none of the model has. -/
theorem not_comparable (h : nearest cosineDistance rows model embedding = some first)
    (hnan : cosineDistance first.embedding embedding = none) :
    ¬ Comparable cosineDistance rows model embedding := by
  rintro ⟨row, hrow, hmodel, hsome⟩
  have hle := (nearest_least h).2.2 row hrow hmodel
  rw [hnan] at hle
  cases hdistance : cosineDistance row.embedding embedding with
  | none => simp [hdistance] at hsome
  | some distance => simp [hdistance, distanceLe] at hle

/-- No row is more similar than the nearest one. -/
theorem similarity_le {distance s : ℚ} {row : CacheEntry}
    (h : nearest cosineDistance rows model embedding = some first)
    (hnumber : cosineDistance first.embedding embedding = some distance) (hrow : row ∈ rows)
    (hmodel : row.model = model) (hs : similarity cosineDistance embedding row = some s) :
    s ≤ 1 - distance := by
  have hle := (nearest_least h).2.2 row hrow hmodel
  obtain ⟨distance', hdistance', rfl⟩ := Option.map_eq_some_iff.mp hs
  rw [hnumber, hdistance'] at hle
  exact sub_le_sub_left (by simpa [distanceLe] using hle) 1

/-- A nearest row with a similarity makes the lookup sound. -/
theorem sound_of_number {distance : ℚ}
    (h : nearest cosineDistance rows model embedding = some first)
    (hnumber : cosineDistance first.embedding embedding = some distance) :
    Sound cosineDistance threshold rows model embedding
      (findSimilar cosineDistance threshold rows model embedding) := by
  rw [findSimilar_of_number h hnumber]
  split
  · rename_i hbelow
    intro row hrow hmodel s hs
    exact (similarity_le h hnumber hrow hmodel hs).trans_lt hbelow
  · rename_i hreached
    obtain ⟨hmem, hmodel, -⟩ := nearest_least h
    refine ⟨hmem, hmodel, 1 - distance, by simp [similarity, hnumber], not_lt.mp hreached, ?_⟩
    intro row hrow hmodel s hs
    exact similarity_le h hnumber hrow hmodel hs

/-- The lookup is sound and finds a best match, in whatever order the rows are scanned,
exactly if the model has no rows or some row of it can be compared with the query. With a
zero vector as the query, and no other row than of zero vectors, none can. -/
theorem findSimilar_sound_iff (cosineDistance : Embedding → Embedding → Option ℚ) (threshold : ℚ)
    (rows : List CacheEntry) (model : String) (embedding : Embedding) :
    Sound cosineDistance threshold rows model embedding
        (findSimilar cosineDistance threshold rows model embedding) ↔
      (∀ row ∈ rows, row.model ≠ model) ∨ Comparable cosineDistance rows model embedding := by
  cases h : nearest cosineDistance rows model embedding with
  | none =>
    have hnone := nearest_eq_none.mp h
    rw [findSimilar_of_nothing h]
    exact iff_of_true (fun row hrow hmodel => absurd hmodel (hnone row hrow)) (.inl hnone)
  | some first =>
    obtain ⟨hmem, hmodel, -⟩ := nearest_least h
    cases hdistance : cosineDistance first.embedding embedding with
    | none =>
      rw [findSimilar_of_nan h hdistance]
      refine iff_of_false ?_ ?_
      · rintro ⟨-, -, s, hs, -⟩
        simp [similarity, hdistance] at hs
      · rintro (hnone | hcomparable)
        · exact hnone first hmem hmodel
        · exact not_comparable h hdistance hcomparable
    | some distance =>
      exact iff_of_true (sound_of_number h hdistance)
        (.inr ⟨first, hmem, hmodel, by simp [hdistance]⟩)

/-! ## A query that cannot be compared -/

def dot (a b : Embedding) : ℚ := (List.zipWith (· * ·) a b).sum

/-- The cosine distance of pgvector, exact where the product of the norms is rational. -/
def pgvectorDistance (a b : Embedding) : Option ℚ :=
  if dot a a * dot b b = 0 then none else some (1 - dot a b / Rat.sqrt (dot a a * dot b b))

/-- A zero vector as the query is answered by a row that it has no similarity to. -/
theorem zero_query_answered : ¬ Sound pgvectorDistance (97 / 100)
    [⟨"m", "h", [1, 0], "old", 1, 1⟩] "m" [0, 0]
    (findSimilar pgvectorDistance (97 / 100) [⟨"m", "h", [1, 0], "old", 1, 1⟩] "m" [0, 0]) := by
  have hfound : nearest pgvectorDistance [⟨"m", "h", [1, 0], "old", 1, 1⟩] "m" [0, 0] =
      some ⟨"m", "h", [1, 0], "old", 1, 1⟩ := by
    simp [nearest]
  have hnan : pgvectorDistance [1, 0] [0, 0] = none := by
    simp [pgvectorDistance, dot]
  rw [findSimilar_of_nan hfound hnan]
  rintro ⟨-, -, s, hs, -⟩
  simp [similarity, hnan] at hs

end InferenceGateway.Persistence.SemanticCacheRepo
