import InferenceGateway.Orchestrator.Freshness

/-!
# Which put a get returns

A put overwrites the entry of its key in L1 and appends a row to L2. After any history L1
holds the last put of each key and L2 holds all puts, so that once the entry in L1 has
expired every put of the prompt is as near as the last one.
-/
namespace InferenceGateway.Orchestrator
open Library Cache Persistence Redis

/-! ## What both tiers hold after a history -/

section History
variable (cache : TwoTierCache)

namespace CacheRequest

/-- What a put leaves under a key of L1. -/
def stored? (key : String) (r : CacheRequest) : Option (Stored Payload) :=
  match r.call with
  | .put model promptHash _ content tokensIn tokensOut =>
    if l1Key model promptHash = key then
      some ⟨⟨content, tokensIn, tokensOut⟩, r.now + cache.l1.ttlSeconds⟩
    else none
  | .get .. => none

/-- The row that a put appends to L2. -/
def row? (r : CacheRequest) : Option Row :=
  match r.call with
  | .put model promptHash _ content tokensIn tokensOut =>
    r.embedding.map fun vector =>
      ⟨⟨model, promptHash, vector, content, tokensIn, tokensOut⟩, r.now⟩
  | .get .. => none

/-- The text that a put or a get embeds. -/
def text (r : CacheRequest) : String :=
  match r.call with
  | .put _ _ promptText _ _ _ => promptText
  | .get _ _ promptText => promptText

/-- The embedding service answers, always in the same way. -/
def Working (embed : String → Embedding) (r : CacheRequest) : Prop :=
  r.embedding = some (embed r.text)

/-- The content of a put for this model, hash and text. -/
def contentFor (model promptHash promptText : String) (r : CacheRequest) : Option String :=
  match r.call with
  | .put m h t content _ _ =>
    if m = model ∧ h = promptHash ∧ t = promptText then some content else none
  | .get .. => none

end CacheRequest

/-- A call writes one entry and one row, or nothing. -/
theorem perform_writes (tiers : Tiers) (scan : List Row) (r : CacheRequest) :
    (∀ key, (tiers.perform cache scan r).2.l1 key = (r.stored? cache key).or (tiers.l1 key)) ∧
    (tiers.perform cache scan r).2.rows = tiers.rows ++ r.row?.toList := by
  obtain ⟨now, embedding, call⟩ := r
  unfold Tiers.perform
  cases call with
  | get model promptHash promptText =>
    dsimp only
    rw [exec_cacheGet]
    exact ⟨fun key => rfl, (List.append_nil _).symm⟩
  | put model promptHash promptText content tokensIn tokensOut =>
    dsimp only
    rw [exec_cachePut]
    refine ⟨fun key => ?_, rfl⟩
    dsimp only [ExactCache.put, Strings.setEx, CacheRequest.stored?]
    by_cases hkey : key = l1Key model promptHash
    · rw [if_pos hkey, if_pos hkey.symm, Option.some_or]
    · rw [if_neg hkey, if_neg (Ne.symm hkey), Option.none_or]

/-- L1 keeps the last put of every key, L2 keeps all. -/
theorem tiers_state (requests : List CacheRequest) :
    (∀ key, ((tieredCache cache).state requests).l1 key =
      (requests.filterMap (CacheRequest.stored? cache key)).getLast?) ∧
    ((tieredCache cache).state requests).rows = requests.filterMap CacheRequest.row? := by
  induction requests using List.reverseRecOn with
  | nil => exact ⟨fun _ => rfl, rfl⟩
  | append_singleton requests r ih =>
    obtain ⟨hl1, hrows⟩ := perform_writes cache ((tieredCache cache).state requests)
      ((tieredCache cache).state requests).rows r
    rw [Service.state_concat]
    constructor
    · intro key
      refine (hl1 key).trans ?_
      rw [ih.1 key, List.filterMap_append, List.getLast?_append]
      cases hstored : r.stored? cache key <;> simp [hstored]
    · refine hrows.trans ?_
      rw [ih.2, List.filterMap_append]
      cases hrow : r.row? <;> simp [hrow]

end History

/-! ## The last put -/

section LastPut
variable (cache : TwoTierCache) (embed : String → Embedding)

/-- A text is as similar to itself as the threshold asks, and more than any other text. -/
structure Distinguishes : Prop where
  self : ∀ text, ∃ distance, cache.cosineDistance (embed text) (embed text) = some distance ∧
    cache.similarityThreshold ≤ 1 - distance
  other : ∀ text text', text' ≠ text → ¬ SemanticCacheRepo.distanceLe
    (cache.cosineDistance (embed text') (embed text))
    (cache.cosineDistance (embed text) (embed text))

/-- A get for something that was put returns the content of the last put, in whatever order
the rows are scanned. -/
def LastWins (past : List CacheRequest) (tiers : Tiers) (r : CacheRequest) : Prop :=
  match r.call with
  | .put .. => True
  | .get model promptHash promptText =>
    ∀ content, (past.filterMap
        (CacheRequest.contentFor model promptHash promptText)).getLast? = some content →
      ∀ scan, scan.Perm tiers.rows → ∃ hit,
        (cacheGet model promptHash promptText).exec (Tiers.answer cache r.now r.embedding scan)
          tiers = (.ok (some hit), tiers) ∧ hit.content = content

/-- The live entry of L1 has the content of the last put, or there is none and all puts of
the model and the text have that content. -/
def Settled (past : List CacheRequest) (tiers : Tiers) (r : CacheRequest) : Prop :=
  match r.call with
  | .put .. => True
  | .get model promptHash promptText =>
    ∀ content, (past.filterMap
        (CacheRequest.contentFor model promptHash promptText)).getLast? = some content →
      match unexpired tiers.l1 r.now (l1Key model promptHash) with
      | some stored => stored.value.content = content
      | none => ∀ put ∈ past, ∀ hash content',
          put.contentFor model hash promptText = some content' → content' = content

variable {cache embed}

theorem contentFor_eq_some {model promptHash promptText content : String} {r : CacheRequest}
    (h : r.contentFor model promptHash promptText = some content) : ∃ tokensIn tokensOut,
      r.call = .put model promptHash promptText content tokensIn tokensOut := by
  obtain ⟨now, embedding, call⟩ := r
  cases call with
  | get => simp [CacheRequest.contentFor] at h
  | put m hash t c tokensIn tokensOut =>
    simp only [CacheRequest.contentFor, Option.ite_none_right_eq_some, Option.some.injEq] at h
    obtain ⟨⟨rfl, rfl, rfl⟩, rfl⟩ := h
    exact ⟨tokensIn, tokensOut, rfl⟩

/-- The row of a put for a text. -/
theorem row_of_contentFor {model promptHash promptText content : String} {r : CacheRequest}
    (hworking : r.Working embed)
    (h : r.contentFor model promptHash promptText = some content) :
    ∃ row, r.row? = some row ∧ row.entry.model = model ∧
      row.entry.embedding = embed promptText ∧ row.entry.response = content := by
  obtain ⟨tokensIn, tokensOut, hcall⟩ := contentFor_eq_some h
  have hembedding : r.embedding = some (embed promptText) := by
    simpa [CacheRequest.Working, CacheRequest.text, hcall] using hworking
  exact ⟨⟨⟨model, promptHash, embed promptText, content, tokensIn, tokensOut⟩, r.now⟩,
    by simp [CacheRequest.row?, hcall, hembedding], rfl, rfl, rfl⟩

/-- Every row is that of a put, which has embedded its text. -/
theorem contentFor_of_row {r : CacheRequest} {row : Row} (hworking : r.Working embed)
    (h : r.row? = some row) :
    row.entry.embedding = embed r.text ∧
      r.contentFor row.entry.model row.entry.promptHash r.text = some row.entry.response := by
  obtain ⟨now, embedding, call⟩ := r
  cases call with
  | get => simp [CacheRequest.row?] at h
  | put m hash t c tokensIn tokensOut =>
    obtain rfl : embedding = some (embed t) := hworking
    obtain rfl : (⟨⟨m, hash, embed t, c, tokensIn, tokensOut⟩, now⟩ : Row) = row := by
      simpa [CacheRequest.row?] using h
    exact ⟨rfl, by simp [CacheRequest.contentFor, CacheRequest.text]⟩

section Nearest
variable (hd : Distinguishes cache embed) {rows : List Row} {model text : String}
  (htexts : ∀ row ∈ rows, ∃ t, row.entry.embedding = embed t)
  (hown : ∃ own ∈ rows, own.entry.model = model ∧ own.entry.embedding = embed text)
include hd

/-- Different texts have different embeddings. -/
theorem Distinguishes.injective {t t' : String} (h : embed t' = embed t) : t' = t := by
  by_contra hne
  have hother := hd.other t t' hne
  have hself := SemanticCacheRepo.distanceLe_total (cache.cosineDistance (embed t) (embed t))
    (cache.cosineDistance (embed t) (embed t))
  rw [Bool.or_self] at hself
  rw [h] at hother
  exact hother hself

/-- What is no farther than a text from itself has its embedding. -/
theorem Distinguishes.eq_of_nearer {row own : Row} (htext : ∃ t, row.entry.embedding = embed t)
    (hown : own.entry.embedding = embed text) (hnearer : nearer cache (embed text) row own) :
    row.entry.embedding = embed text := by
  obtain ⟨t, ht⟩ := htext
  by_cases hsame : t = text
  · rw [ht, hsame]
  · unfold nearer at hnearer
    rw [ht, hown] at hnearer
    exact absurd hnearer (hd.other text t hsame)

theorem Distinguishes.similarEnough {row : Row} (hrow : row.entry.embedding = embed text) :
    SimilarEnough cache (embed text) row := by
  intro distance hdistance
  obtain ⟨own, hown, hreached⟩ := hd.self text
  rw [hrow, hown] at hdistance
  exact Option.some.inj hdistance ▸ hreached

include htexts hown

/-- The rows that can answer are those of the text itself. -/
theorem answers_iff {row : Row} : Answers cache rows model (embed text) row ↔
    row ∈ rows ∧ row.entry.model = model ∧ row.entry.embedding = embed text := by
  obtain ⟨own, hmem, hmodel, hembedding⟩ := hown
  constructor
  · intro h
    exact ⟨h.mem, h.of_model,
      hd.eq_of_nearer (htexts row h.mem) hembedding (h.nearest own hmem hmodel)⟩
  · rintro ⟨hrow, hrowmodel, hrowtext⟩
    refine ⟨hrow, hrowmodel, fun other hother _ => ?_, hd.similarEnough hrowtext⟩
    obtain ⟨t, ht⟩ := htexts other hother
    unfold nearer
    rw [hrowtext, ht]
    by_cases hsame : t = text
    · have hself := SemanticCacheRepo.distanceLe_total
        (cache.cosineDistance (embed text) (embed text))
        (cache.cosineDistance (embed text) (embed text))
      rw [Bool.or_self] at hself
      rwa [hsame]
    · have hone := SemanticCacheRepo.distanceLe_total
        (cache.cosineDistance (embed text) (embed text))
        (cache.cosineDistance (embed t) (embed text))
      simpa [hd.other text t hsame] using hone

/-- One of them does, in whatever order the rows are scanned. -/
theorem exists_findRow {scan : List Row} (hscan : scan.Perm rows) :
    ∃ row, findRow cache scan model (embed text) = some row := by
  obtain ⟨own, hmem, hmodel, hembedding⟩ := hown
  have hcandidate : own ∈ (scan.filter fun row => row.entry.model = model) :=
    List.mem_filter.mpr ⟨hscan.mem_iff.mpr hmem, by simpa using hmodel⟩
  have hne := List.ne_nil_of_mem
    ((List.mergeSort_perm _ (nearer cache (embed text))).mem_iff.mpr hcandidate)
  obtain ⟨first, hfirst⟩ : ∃ first, ((scan.filter fun row => row.entry.model = model).mergeSort
      (nearer cache (embed text))).head? = some first := ⟨_, List.head?_eq_some_head hne⟩
  obtain ⟨hfirstmem, hleast⟩ := le_of_head?_mergeSort
    (by intro a b c; exact SemanticCacheRepo.distanceLe_trans)
    (by intro a b; exact SemanticCacheRepo.distanceLe_total _ _) hfirst
  have htext := htexts first (hscan.mem_iff.mp (List.mem_filter.mp hfirstmem).1)
  refine ⟨first, (findRow_eq_some_iff cache).mpr ⟨hfirst, hd.similarEnough ?_⟩⟩
  exact hd.eq_of_nearer htext hembedding (hleast own hcandidate)

/-- All scans find a response exactly if all rows of the text have it. -/
theorem always_found_iff (content : String) :
    (∀ scan, scan.Perm rows → ∃ row, findRow cache scan model (embed text) = some row ∧
      row.entry.response = content) ↔
    ∀ row ∈ rows, row.entry.model = model → row.entry.embedding = embed text →
      row.entry.response = content := by
  constructor
  · intro h row hrow hmodel htext
    obtain ⟨scan, hscan, hfind⟩ := (exists_findRow_iff cache).mpr
      ((answers_iff hd htexts hown).mpr ⟨hrow, hmodel, htext⟩)
    obtain ⟨row', hfind', hresponse⟩ := h scan hscan
    obtain rfl := Option.some.inj (hfind.symm.trans hfind')
    exact hresponse
  · intro h scan hscan
    obtain ⟨row, hfind⟩ := exists_findRow hd htexts hown hscan
    obtain ⟨hrow, hmodel, htext⟩ := (answers_iff hd htexts hown).mp
      ((exists_findRow_iff cache).mp ⟨scan, hscan, hfind⟩)
    exact ⟨row, hfind, h row hrow hmodel htext⟩

end Nearest

/-- Rows and puts of a text agree on their contents. -/
theorem rows_agree_iff (hd : Distinguishes cache embed) {past : List CacheRequest}
    (hpast : ∀ put ∈ past, put.Working embed) (model text content : String) :
    (∀ row ∈ past.filterMap CacheRequest.row?, row.entry.model = model →
      row.entry.embedding = embed text → row.entry.response = content) ↔
    ∀ put ∈ past, ∀ hash content', put.contentFor model hash text = some content' →
      content' = content := by
  constructor
  · intro h put hput hash content' hfor
    obtain ⟨row, hrow, hmodel, htext, rfl⟩ := row_of_contentFor (hpast put hput) hfor
    exact h row (List.mem_filterMap.mpr ⟨put, hput, hrow⟩) hmodel htext
  · intro h row hrow hmodel htext
    obtain ⟨put, hput, hput'⟩ := List.mem_filterMap.mp hrow
    obtain ⟨hembedded, hfor⟩ := contentFor_of_row (hpast put hput) hput'
    rw [hd.injective (hembedded.symm.trans htext), hmodel] at hfor
    exact h put hput _ _ hfor

/-- What one get returns, after any history. -/
theorem lastWins_iff_settled (hd : Distinguishes cache embed) {past : List CacheRequest}
    (hpast : ∀ put ∈ past, put.Working embed) {r : CacheRequest} (hr : r.Working embed) :
    LastWins cache past ((tieredCache cache).state past) r ↔
      Settled past ((tieredCache cache).state past) r := by
  obtain ⟨now, embedding, call⟩ := r
  cases call with
  | put => exact Iff.rfl
  | get model promptHash text =>
    obtain rfl : embedding = some (embed text) := hr
    have hrows := (tiers_state cache past).2
    generalize (tieredCache cache).state past = tiers at hrows
    refine forall_congr' fun content => imp_congr_right fun hlast => ?_
    simp only [exec_cacheGet, origin]
    cases hlive : unexpired tiers.l1 now (l1Key model promptHash) with
    | some stored =>
      simp only [Option.map_some, Prod.mk.injEq, Except.ok.injEq, Option.some.injEq, and_true]
      constructor
      · intro h
        obtain ⟨hit, rfl, hcontent⟩ := h tiers.rows (.refl _)
        exact hcontent
      · intro h scan _
        exact ⟨_, rfl, h⟩
    | none =>
      have htexts : ∀ row ∈ tiers.rows, ∃ t, row.entry.embedding = embed t := by
        intro row hrow
        obtain ⟨put, hput, hput'⟩ := List.mem_filterMap.mp (hrows ▸ hrow)
        exact ⟨_, (contentFor_of_row (hpast put hput) hput').1⟩
      have hown : ∃ own ∈ tiers.rows, own.entry.model = model ∧
          own.entry.embedding = embed text := by
        obtain ⟨put, hput, hfor⟩ := List.mem_filterMap.mp (List.mem_of_getLast? hlast)
        obtain ⟨row, hrow, hmodel, htext, -⟩ := row_of_contentFor (hpast put hput) hfor
        exact ⟨row, hrows ▸ List.mem_filterMap.mpr ⟨put, hput, hrow⟩, hmodel, htext⟩
      -- Over all scans, the get returns that content if all rows of the text hold it.
      have hfound := always_found_iff hd htexts hown content
      rw [hrows, rows_agree_iff hd hpast, ← hrows] at hfound
      refine Iff.trans (forall_congr' fun scan => imp_congr_right fun _ => ?_) hfound
      simp only [Option.map_map, Prod.mk.injEq, Except.ok.injEq, and_true,
        Option.map_eq_some_iff, Function.comp]
      constructor
      · rintro ⟨_, ⟨row, hfind, rfl⟩, hcontent⟩
        exact ⟨row, hfind, hcontent⟩
      · rintro ⟨row, hfind, hcontent⟩
        exact ⟨_, ⟨row, hfind, rfl⟩, hcontent⟩

/-- Where no other prompt shares its key, a live entry of L1 is that of the last put. -/
theorem live_entry_last {past : List CacheRequest} {model promptHash promptText : String}
    (hkeys : ∀ put ∈ past, ∀ m h t content tokensIn tokensOut,
      put.call = .put m h t content tokensIn tokensOut →
        l1Key m h = l1Key model promptHash → m = model ∧ h = promptHash ∧ t = promptText)
    {now : Time} {stored : Stored Payload}
    (hlive : unexpired ((tieredCache cache).state past).l1 now (l1Key model promptHash) =
      some stored) :
    (past.filterMap (CacheRequest.contentFor model promptHash promptText)).getLast? =
      some stored.value.content := by
  have hlast := (Option.filter_eq_some_iff.mp hlive).1
  rw [(tiers_state cache past).1] at hlast
  have hsame : past.filterMap (CacheRequest.contentFor model promptHash promptText) =
      past.filterMap fun put => (put.stored? cache (l1Key model promptHash)).map
        fun stored => stored.value.content := by
    refine List.filterMap_congr fun put hput => ?_
    obtain ⟨now, embedding, call⟩ := put
    cases call with
    | get => rfl
    | put m h t content tokensIn tokensOut =>
      have hkey := hkeys _ hput m h t content tokensIn tokensOut rfl
      simp only [CacheRequest.contentFor, CacheRequest.stored?]
      by_cases heq : l1Key m h = l1Key model promptHash
      · rw [if_pos (hkey heq), if_pos heq, Option.map_some]
      · rw [if_neg (fun hthis => heq (by rw [hthis.1, hthis.2.1])), if_neg heq, Option.map_none]
  rw [hsame, ← List.map_filterMap, List.getLast?_map, hlast, Option.map_some]

/-- In a run of puts and gets with a working embedding service, each get for something that
was put returns the content of the last put exactly if each finds it in a live entry of L1,
or finds none and every put of the model and the text had that content. -/
theorem last_write_wins_iff (cache : TwoTierCache) (embed : String → Embedding)
    (hd : Distinguishes cache embed) (requests : List CacheRequest)
    (hworking : ∀ r ∈ requests, r.Working embed) :
    (tieredCache cache).Along
        (fun past tiers r => LastWins cache (past.map Prod.fst) tiers r) requests ↔
      (tieredCache cache).Along
        (fun past tiers r => Settled (past.map Prod.fst) tiers r) requests := by
  refine forall_congr' fun before => forall_congr' fun r => forall_congr' fun hpre => ?_
  have hbefore : ∀ put ∈ before, put.Working embed := fun put hput =>
    hworking put (hpre.subset (List.mem_append_left _ hput))
  have hr : r.Working embed := hworking r (hpre.subset (by simp))
  dsimp only
  rw [Service.map_fst_history]
  exact lastWins_iff_settled hd hbefore hr

end LastPut

/-! ## An ideal embedding -/

/-- The code points of a text. -/
def codePoints (text : String) : Embedding := text.toList.map fun c => (c.toNat : ℚ)

theorem codePoints_injective : Function.Injective codePoints := by
  intro text text' h
  refine String.toList_inj.mp (List.map_injective_iff.mpr (fun c c' hc => ?_) h)
  exact Char.toNat_inj.mp (by exact_mod_cast hc)

/-- Equal texts are at distance 0 and all others at distance 1. -/
def equalOrApart (a b : Embedding) : Option ℚ := some (if a = b then 0 else 1)

/-- One minute in L1, and an embedding that tells all texts apart. -/
def minuteOfTexts : TwoTierCache := ⟨⟨60, minute_pos⟩, 97 / 100, equalOrApart⟩

theorem distinguishes_codePoints : Distinguishes minuteOfTexts codePoints where
  self text := ⟨0, by simp [minuteOfTexts, equalOrApart], by norm_num [minuteOfTexts]⟩
  other text text' hne := by
    have hne' : codePoints text' ≠ codePoints text := fun h => hne (codePoints_injective h)
    simp [minuteOfTexts, equalOrApart, hne', SemanticCacheRepo.distanceLe]

def putHi (now : Time) (content : String) : CacheRequest :=
  ⟨now, some (codePoints "hi"), .put "m" "h" "hi" content 1 1⟩

def getHi (now : Time) : CacheRequest := ⟨now, some (codePoints "hi"), .get "m" "h" "hi"⟩

/-- What the entry of L1 was before a get at 100 seconds, it has expired. -/
theorem expired_hi (first last : String) :
    unexpired ((tieredCache minuteOfTexts).state [putHi 0 first, putHi 1 last]).l1 100
      (l1Key "m" "h") = none := by
  rw [unexpired, (tiers_state minuteOfTexts _).1]
  norm_num [putHi, CacheRequest.stored?, minuteOfTexts]

/-- Two puts of one content and a get after it has left L1. -/
theorem last_write_wins_repeated : (tieredCache minuteOfTexts).Along
    (fun past tiers r => LastWins minuteOfTexts (past.map Prod.fst) tiers r)
    [putHi 0 "new", putHi 1 "new", getHi 100] := by
  have hworking : ∀ r ∈ [putHi 0 "new", putHi 1 "new", getHi 100], r.Working codePoints := by
    simp [CacheRequest.Working, CacheRequest.text, putHi, getHi]
  refine (last_write_wins_iff minuteOfTexts codePoints distinguishes_codePoints _ hworking).mpr ?_
  have hsplit : [putHi 0 "new", putHi 1 "new", getHi 100] =
      [] ++ [putHi 0 "new"] ++ [putHi 1 "new"] ++ [getHi 100] := rfl
  rw [hsplit, Service.along_concat, Service.along_concat, Service.along_concat]
  refine ⟨⟨⟨fun before r hpre => by simp at hpre, trivial⟩, trivial⟩, ?_⟩
  rw [Service.map_fst_history]
  intro content hlast
  obtain rfl : "new" = content := by simpa [putHi, CacheRequest.contentFor] using hlast
  dsimp only [getHi, List.nil_append, List.singleton_append]
  rw [expired_hi]
  intro put hput hash content hfor
  obtain rfl | rfl : put = putHi 0 "new" ∨ put = putHi 1 "new" := by simpa using hput
  all_goals
    simp only [putHi, CacheRequest.contentFor, Option.ite_none_right_eq_some,
      Option.some.injEq] at hfor
    exact hfor.2.symm

/-- The row of the first put answers once both entries have left L1. -/
theorem first_write_served : ¬ (tieredCache minuteOfTexts).Along
    (fun past tiers r => LastWins minuteOfTexts (past.map Prod.fst) tiers r)
    [putHi 0 "old", putHi 1 "new", getHi 100] := by
  intro h
  have hget := h [putHi 0 "old", putHi 1 "new"] (getHi 100) List.prefix_rfl
  dsimp only at hget
  rw [Service.map_fst_history] at hget
  have hworking : (getHi 100).Working codePoints := rfl
  have hsettled := (lastWins_iff_settled distinguishes_codePoints
    (by simp [CacheRequest.Working, CacheRequest.text, putHi]) hworking).mp hget
  have hlast : ([putHi 0 "old", putHi 1 "new"].filterMap
      (CacheRequest.contentFor "m" "h" "hi")).getLast? = some "new" := by
    simp [putHi, CacheRequest.contentFor]
  have hall := hsettled "new" hlast
  dsimp only [getHi] at hall
  rw [expired_hi] at hall
  have hsame := hall (putHi 0 "old") (by simp) "h" "old" (by simp [putHi, CacheRequest.contentFor])
  simp at hsame

end InferenceGateway.Orchestrator
