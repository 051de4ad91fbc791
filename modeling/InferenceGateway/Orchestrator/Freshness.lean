import InferenceGateway.Library.Execution
import InferenceGateway.Library.Service
import InferenceGateway.Library.SortedHead
import InferenceGateway.Orchestrator.World

/-!
# How old a cached response can be

Puts and gets of `TwoTierCache` over time. L1 gives every entry a deadline. The rows of L2
have none: a get that finds nothing in L1 is answered by the nearest row of its model,
however long ago it was put.
-/
namespace InferenceGateway.Orchestrator
open Library Library.Action Cache Persistence Redis

/-! ## Both tiers over time -/

/-- A row of `cache_entry` with its column `created_at`. -/
structure Row where
  entry : CacheEntry
  createdAt : Time

structure Tiers where
  l1 : Strings Payload
  rows : List Row

/-- A put or a get, for the text that is embedded. The embedding is absent if there is no
embedding service. -/
inductive CacheCall where
  | put (model promptHash promptText content : String) (tokensIn tokensOut : Int)
  | get (model promptHash promptText : String)

structure CacheRequest where
  now : Time
  embedding : Option Embedding
  call : CacheCall

variable (cache : TwoTierCache)

/-- How the two stores and the embedding service answer at a time. The rows are scanned
in the given order. -/
def Tiers.answer (now : Time) (embedding : Option Embedding) (scan : List Row) :
    Program.Handler Op Reply Tiers := fun tiers op =>
  match op with
  | .exactGet model promptHash => (.ok (ExactCache.get tiers.l1 now model promptHash), tiers)
  | .exactPut model promptHash content tokensIn tokensOut =>
    (.ok (), { tiers with
      l1 := cache.l1.put tiers.l1 now model promptHash content tokensIn tokensOut })
  | .embed _ => (.ok embedding, tiers)
  | .findSimilar model vector =>
    (.ok (SemanticCacheRepo.findSimilar cache.cosineDistance cache.similarityThreshold
      (scan.map Row.entry) model vector), tiers)
  | .insertEntry entry => (.ok (), { tiers with rows := tiers.rows ++ [⟨entry, now⟩] })
  | _ => (.error (.failure "not a cache operation"), tiers)

/-- What `TwoTierCache.get` and `TwoTierCache.put` return and leave behind. -/
def Tiers.perform (scan : List Row) (tiers : Tiers) (r : CacheRequest) :
    Except Raised (Option CacheHit) × Tiers :=
  match r.call with
  | .put model promptHash promptText content tokensIn tokensOut =>
    let (reply, tiers) := (cachePut model promptHash promptText content tokensIn tokensOut).exec
      (Tiers.answer cache r.now r.embedding scan) tiers
    (reply.map fun _ => none, tiers)
  | .get model promptHash promptText =>
    (cacheGet model promptHash promptText).exec (Tiers.answer cache r.now r.embedding scan) tiers

/-- The cache, from two empty tiers. -/
def tieredCache : Service Tiers CacheRequest (Except Raised (Option CacheHit)) :=
  ⟨⟨Strings.empty, []⟩, fun tiers r => tiers.perform cache tiers.rows r⟩

/-! ## Where a response comes from -/

/-- The order of `ORDER BY embedding <=> :vector`. -/
def nearer (vector : Embedding) (a b : Row) : Bool := SemanticCacheRepo.distanceLe
  (cache.cosineDistance a.entry.embedding vector) (cache.cosineDistance b.entry.embedding vector)

/-- The similarity is not below the threshold. -/
def SimilarEnough (vector : Embedding) (row : Row) : Prop :=
  ∀ distance, cache.cosineDistance row.entry.embedding vector = some distance →
    cache.similarityThreshold ≤ 1 - distance

/-- `SemanticCacheRepo.find_similar`, with the row it finds. -/
def findRow (scan : List Row) (model : String) (vector : Embedding) : Option Row :=
  let candidates := scan.filter fun row => row.entry.model = model
  match (candidates.mergeSort (nearer cache vector)).head? with
  | none => none
  | some row =>
    match cache.cosineDistance row.entry.embedding vector with
    | none => some row
    | some distance => if 1 - distance < cache.similarityThreshold then none else some row

theorem map_findRow (scan : List Row) (model : String) (vector : Embedding) :
    (findRow cache scan model vector).map Row.entry =
      SemanticCacheRepo.findSimilar cache.cosineDistance cache.similarityThreshold
        (scan.map Row.entry) model vector := by
  have hcandidates : (scan.map Row.entry).filter (fun entry => entry.model = model) =
      (scan.filter fun row => row.entry.model = model).map Row.entry := List.filter_map
  have hsorted : ((scan.filter fun row => row.entry.model = model).map Row.entry).mergeSort
      (fun a b => SemanticCacheRepo.distanceLe (cache.cosineDistance a.embedding vector)
        (cache.cosineDistance b.embedding vector)) =
      ((scan.filter fun row => row.entry.model = model).mergeSort
        (nearer cache vector)).map Row.entry :=
    (List.map_mergeSort (f := Row.entry) fun _ _ _ _ => rfl).symm
  unfold findRow SemanticCacheRepo.findSimilar
  dsimp only
  rw [hcandidates, hsorted, List.head?_map]
  cases ((scan.filter fun row => row.entry.model = model).mergeSort
    (nearer cache vector)).head? with
  | none => rfl
  | some row =>
    dsimp only [Option.map_some]
    cases cache.cosineDistance row.entry.embedding vector with
    | none => rfl
    | some distance =>
      dsimp only
      split <;> rfl

/-- The row is of the model, none of the model is nearer, and it is similar enough. -/
structure Answers (rows : List Row) (model : String) (vector : Embedding) (row : Row) : Prop where
  mem : row ∈ rows
  of_model : row.entry.model = model
  nearest : ∀ other ∈ rows, other.entry.model = model → nearer cache vector row other
  similar : SimilarEnough cache vector row

theorem findRow_eq_some_iff {scan : List Row} {model : String} {vector : Embedding} {row : Row} :
    findRow cache scan model vector = some row ↔
      ((scan.filter fun row => row.entry.model = model).mergeSort (nearer cache vector)).head? =
        some row ∧ SimilarEnough cache vector row := by
  unfold findRow SimilarEnough
  dsimp only
  cases ((scan.filter fun row => row.entry.model = model).mergeSort
    (nearer cache vector)).head? with
  | none => simp
  | some first =>
    dsimp only
    cases hdistance : cache.cosineDistance first.entry.embedding vector with
    | none =>
      simp only [Option.some.injEq, iff_self_and]
      rintro rfl distance hsome
      exact nomatch hdistance.symm.trans hsome
    | some distance =>
      dsimp only
      split
      · rename_i hbelow
        refine iff_of_false nofun ?_
        rintro ⟨heq, hsimilar⟩
        obtain rfl := Option.some.inj heq
        exact absurd (hsimilar _ hdistance) (not_le.mpr hbelow)
      · rename_i hbelow
        simp only [Option.some.injEq, iff_self_and]
        rintro rfl distance' hsome
        obtain rfl := Option.some.inj (hdistance.symm.trans hsome)
        exact not_lt.mp hbelow

/-- Which rows can answer: in some order of the scan the row is found. -/
theorem exists_findRow_iff {rows : List Row} {model : String} {vector : Embedding} {row : Row} :
    (∃ scan, scan.Perm rows ∧ findRow cache scan model vector = some row) ↔
      Answers cache rows model vector row := by
  have htrans : ∀ a b c, nearer cache vector a b → nearer cache vector b c →
      nearer cache vector a c :=
    fun _ _ _ => SemanticCacheRepo.distanceLe_trans
  have htotal : ∀ a b, nearer cache vector a b || nearer cache vector b a := fun _ _ =>
    SemanticCacheRepo.distanceLe_total _ _
  simp only [findRow_eq_some_iff]
  constructor
  · rintro ⟨scan, hperm, hhead, hsimilar⟩
    obtain ⟨hmem, hnearest⟩ := le_of_head?_mergeSort htrans htotal hhead
    simp only [List.mem_filter, decide_eq_true_eq, and_imp] at hmem hnearest
    exact ⟨hperm.mem_iff.mp hmem.1, hmem.2, fun other hother hmodel =>
      hnearest other (hperm.mem_iff.mpr hother) hmodel, hsimilar⟩
  · intro h
    obtain ⟨before, after, rfl⟩ := List.mem_iff_append.mp h.mem
    refine ⟨row :: (before ++ after), List.perm_middle.symm, ?_, h.similar⟩
    rw [List.filter_cons_of_pos (by simpa using h.of_model)]
    refine head?_mergeSort_cons htrans htotal fun other hother => ?_
    obtain ⟨hmem, hmodel⟩ := List.mem_filter.mp hother
    exact h.nearest other (List.perm_middle.mem_iff.mpr (List.mem_cons_of_mem _ hmem))
      (of_decide_eq_true hmodel)

/-! ## Fresh and stale gets -/

/-- The entry of a key, if its deadline has not passed. -/
def unexpired (l1 : Strings Payload) (now : Time) (key : String) : Option (Stored Payload) :=
  (l1 key).filter fun stored => now ≤ stored.deadline

/-- What a get returns and when that was put: an entry of L1 at its deadline less the TTL,
a row of L2 when it was created. -/
def origin (scan : List Row) (tiers : Tiers) (now : Time) (embedding : Option Embedding)
    (model promptHash : String) : Option (CacheHit × Time) :=
  match unexpired tiers.l1 now (l1Key model promptHash) with
  | some stored =>
    some (⟨stored.value.content, stored.value.tokensIn, stored.value.tokensOut, .l1⟩,
      stored.deadline - cache.l1.ttlSeconds)
  | none =>
    match embedding with
    | none => none
    | some vector => (findRow cache scan model vector).map fun row =>
      (⟨row.entry.response, row.entry.tokensIn, row.entry.tokensOut, .l2⟩, row.createdAt)

theorem get_eq_map_unexpired (l1 : Strings Payload) (now : Time) (key : String) :
    l1.get now key = (unexpired l1 now key).map Stored.value := by
  unfold Strings.get unexpired
  cases l1 key with
  | none => rfl
  | some stored =>
    dsimp only
    split
    · rename_i hlt
      simp [hlt]
    · rename_i hle
      simp [not_lt.mp hle]

/-- The hit is the one that the get returns. -/
theorem exec_cacheGet (scan : List Row) (tiers : Tiers) (now : Time) (embedding : Option Embedding)
    (model promptHash promptText : String) :
    (cacheGet model promptHash promptText).exec (Tiers.answer cache now embedding scan) tiers =
      (.ok ((origin cache scan tiers now embedding model promptHash).map Prod.fst), tiers) := by
  have hexact : (call (.exactGet model promptHash)).exec
      (Tiers.answer cache now embedding scan) tiers =
        (.ok (ExactCache.get tiers.l1 now model promptHash), tiers) := rfl
  unfold cacheGet origin
  rw [exec_bind_ok hexact, ExactCache.get, get_eq_map_unexpired]
  cases unexpired tiers.l1 now (l1Key model promptHash) with
  | some stored => rfl
  | none =>
    cases embedding with
    | none => rfl
    | some vector =>
      have hfind : (call (.findSimilar model vector)).exec
          (Tiers.answer cache now (some vector) scan) tiers =
          (.ok ((findRow cache scan model vector).map Row.entry), tiers) := by
        rw [map_findRow]
        rfl
      refine (exec_bind_ok (t := tiers) (a := some vector) rfl).trans ?_
      refine (exec_bind_ok hfind).trans ?_
      rw [exec_pure, Option.map_map, Option.map_map]
      rfl

theorem exec_cachePut (scan : List Row) (tiers : Tiers) (now : Time) (embedding : Option Embedding)
    (model promptHash promptText content : String) (tokensIn tokensOut : Int) :
    (cachePut model promptHash promptText content tokensIn tokensOut).exec
        (Tiers.answer cache now embedding scan) tiers =
      (.ok (), ⟨cache.l1.put tiers.l1 now model promptHash content tokensIn tokensOut,
        tiers.rows ++ (embedding.map fun vector =>
          (⟨⟨model, promptHash, vector, content, tokensIn, tokensOut⟩, now⟩ : Row)).toList⟩) := by
  cases embedding with
  | none => exact congrArg (fun rows => (Except.ok (), Tiers.mk _ rows)) (List.append_nil _).symm
  | some vector => rfl

/-- No response that a get can return, in whatever order the rows are scanned, was put
longer ago than the TTL. -/
def Fresh (tiers : Tiers) (r : CacheRequest) : Prop :=
  match r.call with
  | .put .. => True
  | .get model promptHash _ => ∀ scan, scan.Perm tiers.rows → ∀ hit putAt,
      origin cache scan tiers r.now r.embedding model promptHash = some (hit, putAt) →
        r.now ≤ putAt + cache.l1.ttlSeconds

/-- A get finds the prompt in L1, or there is no embedding, or the rows that can answer are
no older than the TTL. -/
def Unaged (tiers : Tiers) (r : CacheRequest) : Prop :=
  match r.call with
  | .put .. => True
  | .get model promptHash _ =>
    (∃ stored, unexpired tiers.l1 r.now (l1Key model promptHash) = some stored) ∨
      ∀ vector, r.embedding = some vector → ∀ row, Answers cache tiers.rows model vector row →
        r.now ≤ row.createdAt + cache.l1.ttlSeconds

theorem fresh_iff_unaged (tiers : Tiers) (r : CacheRequest) :
    Fresh cache tiers r ↔ Unaged cache tiers r := by
  obtain ⟨now, embedding, call⟩ := r
  cases call with
  | put => exact Iff.rfl
  | get model promptHash promptText =>
    simp only [Fresh, Unaged, origin]
    cases hlive : unexpired tiers.l1 now (l1Key model promptHash) with
    | some stored =>
      have hdeadline : now ≤ stored.deadline := by
        simpa using (Option.filter_eq_some_iff.mp hlive).2
      refine iff_of_true (fun scan _ hit putAt heq => ?_) (.inl ⟨stored, rfl⟩)
      obtain ⟨-, rfl⟩ := Prod.mk.inj (Option.some.inj heq)
      simpa using hdeadline
    | none =>
      cases embedding with
      | none => simp
      | some vector =>
        have hanswers : ∀ row, (∃ scan, scan.Perm tiers.rows ∧
            findRow cache scan model vector = some row) ↔
          Answers cache tiers.rows model vector row :=
          fun _ => exists_findRow_iff cache
        simp only [Option.map_eq_some_iff, Prod.mk.injEq, reduceCtorEq, exists_false, false_or,
          Option.some.injEq]
        constructor
        · rintro h _ rfl row hrow
          obtain ⟨scan, hperm, hfind⟩ := (hanswers row).mpr hrow
          exact h scan hperm _ _ ⟨row, hfind, rfl, rfl⟩
        · rintro h scan hperm _ _ ⟨row, hfind, rfl, rfl⟩
          exact h vector rfl row ((hanswers row).mp ⟨scan, hperm, hfind⟩)

/-! ## Origins are puts -/

/-- The response was put at this time. -/
def WasPut (requests : List CacheRequest) (putAt : Time) (content : String)
    (tokensIn tokensOut : Int) : Prop :=
  ∃ r ∈ requests, r.now = putAt ∧ ∃ model promptHash promptText,
    r.call = .put model promptHash promptText content tokensIn tokensOut

theorem WasPut.mono {requests requests' : List CacheRequest} (hsub : requests ⊆ requests')
    {putAt : Time} {content : String} {tokensIn tokensOut : Int}
    (h : WasPut requests putAt content tokensIn tokensOut) :
    WasPut requests' putAt content tokensIn tokensOut := by
  obtain ⟨r, hr, hput⟩ := h
  exact ⟨r, hsub hr, hput⟩

/-- Whatever both tiers hold was put when they say. -/
structure Recorded (requests : List CacheRequest) (tiers : Tiers) : Prop where
  l1 : ∀ key stored, tiers.l1 key = some stored → WasPut requests
    (stored.deadline - cache.l1.ttlSeconds) stored.value.content stored.value.tokensIn
    stored.value.tokensOut
  rows : ∀ row ∈ tiers.rows, WasPut requests row.createdAt row.entry.response row.entry.tokensIn
    row.entry.tokensOut

theorem Recorded.perform {requests : List CacheRequest} {tiers : Tiers}
    (h : Recorded cache requests tiers) (scan : List Row) (r : CacheRequest) :
    Recorded cache (requests ++ [r]) (tiers.perform cache scan r).2 := by
  have hsub : requests ⊆ requests ++ [r] := List.subset_append_left _ _
  obtain ⟨now, embedding, call⟩ := r
  cases call with
  | get model promptHash promptText =>
    have htiers : (tiers.perform cache scan ⟨now, embedding, .get model promptHash promptText⟩).2 =
        tiers := congrArg Prod.snd (exec_cacheGet ..)
    rw [htiers]
    exact ⟨fun key stored hstored => (h.l1 key stored hstored).mono hsub,
      fun row hrow => (h.rows row hrow).mono hsub⟩
  | put model promptHash promptText content tokensIn tokensOut =>
    have hput : WasPut (requests ++ [⟨now, embedding,
        .put model promptHash promptText content tokensIn tokensOut⟩])
          now content tokensIn tokensOut :=
      ⟨_, List.mem_append_right _ (List.mem_singleton_self _), rfl, _, _, _, rfl⟩
    unfold Tiers.perform
    dsimp only
    rw [exec_cachePut]
    constructor
    · intro key stored hstored
      dsimp only [ExactCache.put, Strings.setEx] at hstored
      split at hstored
      · obtain rfl := Option.some.inj hstored
        simpa using hput
      · exact (h.l1 key stored hstored).mono hsub
    · intro row hrow
      obtain hold | hnew := List.mem_append.mp hrow
      · exact (h.rows row hold).mono hsub
      · obtain ⟨vector, -, rfl⟩ := Option.map_eq_some_iff.mp (Option.mem_toList.mp hnew)
        exact hput

theorem recorded_state (requests : List CacheRequest) :
    Recorded cache requests ((tieredCache cache).state requests) := by
  induction requests using List.reverseRecOn with
  | nil => exact ⟨nofun, nofun⟩
  | append_singleton requests r ih =>
    rw [Service.state_concat]
    exact ih.perform cache _ r

/-- The response of a get was put at the time of its origin. -/
theorem wasPut_of_origin {requests : List CacheRequest} {scan : List Row}
    (hscan : scan.Perm ((tieredCache cache).state requests).rows) {now putAt : Time}
    {embedding : Option Embedding} {model promptHash : String} {hit : CacheHit}
    (h : origin cache scan ((tieredCache cache).state requests) now embedding model promptHash =
      some (hit, putAt)) : WasPut requests putAt hit.content hit.tokensIn hit.tokensOut := by
  have hrecorded := recorded_state cache requests
  unfold origin at h
  split at h
  · rename_i stored hlive
    obtain ⟨rfl, rfl⟩ := Prod.mk.inj (Option.some.inj h)
    exact hrecorded.l1 _ _ (Option.filter_eq_some_iff.mp hlive).1
  · split at h
    · exact nomatch h
    · obtain ⟨row, hfind, hrow⟩ := Option.map_eq_some_iff.mp h
      obtain ⟨rfl, rfl⟩ := Prod.mk.inj hrow
      exact hrecorded.rows row ((exists_findRow_iff cache).mp ⟨scan, hscan, hfind⟩).mem

/-- A get returns what its origin says, and that was put then. -/
def Originates (before : List CacheRequest) (tiers : Tiers) (r : CacheRequest) : Prop :=
  match r.call with
  | .put .. => True
  | .get model promptHash _ => ∀ scan, scan.Perm tiers.rows →
      (tiers.perform cache scan r).1 =
        .ok ((origin cache scan tiers r.now r.embedding model promptHash).map Prod.fst) ∧
      ∀ hit putAt, origin cache scan tiers r.now r.embedding model promptHash =
        some (hit, putAt) → WasPut before putAt hit.content hit.tokensIn hit.tokensOut

theorem originates (requests : List CacheRequest) (r : CacheRequest) :
    Originates cache requests ((tieredCache cache).state requests) r := by
  obtain ⟨now, embedding, call⟩ := r
  cases call with
  | put => trivial
  | get model promptHash promptText =>
    exact fun scan hscan => ⟨congrArg Prod.fst (exec_cacheGet ..),
      fun hit putAt horigin => wasPut_of_origin cache hscan horigin⟩

/-- In a run of puts and gets no get can return a response that was put longer ago than
the TTL, exactly if each get finds its prompt in L1 or finds no old row that can answer; and
what a get returns was put when its origin says. -/
theorem always_fresh_iff (requests : List CacheRequest) :
    ((tieredCache cache).Along (fun _ tiers r => Fresh cache tiers r) requests ↔
      (tieredCache cache).Along (fun _ tiers r => Unaged cache tiers r) requests) ∧
    ∀ before r, before ++ [r] <+: requests →
      Originates cache before ((tieredCache cache).state before) r :=
  ⟨forall_congr' fun _ => forall_congr' fun _ => imp_congr_right fun _ =>
      fresh_iff_unaged cache _ _,
    fun before r _ => originates cache before r⟩

theorem minute_pos : (0 : Int) < 60 := by decide

/-- One minute in L1, and any two embeddings at distance 0. -/
def oneMinute : TwoTierCache := ⟨⟨60, minute_pos⟩, 97 / 100, fun _ _ => some 0⟩

/-- After 100 seconds the prompt has left L1, and the row of L2 still answers. -/
theorem stale_row_served : ¬ (tieredCache oneMinute).Along
    (fun _ tiers r => Fresh oneMinute tiers r)
    [⟨0, some [], .put "m" "h" "hi" "old" 1 1⟩, ⟨100, some [], .get "m" "h" "hi"⟩] := by
  intro h
  have hfresh := h [⟨0, some [], .put "m" "h" "hi" "old" 1 1⟩] _ List.prefix_rfl
  have hstate : (tieredCache oneMinute).state [⟨0, some [], .put "m" "h" "hi" "old" 1 1⟩] =
      ⟨oneMinute.l1.put Strings.empty 0 "m" "h" "old" 1 1,
        [⟨⟨"m", "h", [], "old", 1, 1⟩, 0⟩]⟩ := rfl
  rw [hstate] at hfresh
  have hgone : unexpired (oneMinute.l1.put Strings.empty 0 "m" "h" "old" 1 1) 100 (l1Key "m" "h") =
      none := by
    norm_num [unexpired, ExactCache.put, Strings.setEx, oneMinute]
  have hfound : findRow oneMinute [⟨⟨"m", "h", [], "old", 1, 1⟩, 0⟩] "m" [] =
      some ⟨⟨"m", "h", [], "old", 1, 1⟩, 0⟩ := by
    norm_num [findRow, oneMinute]
  have hstale := hfresh _ (.refl _) ⟨"old", 1, 1, .l2⟩ 0 (by rw [origin, hgone]; simp [hfound])
  norm_num [oneMinute] at hstale

end InferenceGateway.Orchestrator
