import InferenceGateway.Orchestrator.LastWrite

/-!
# What the semantic tier takes for the same request

L1 identifies a request by a digest of its model, roles and contents, L2 by its model and
the embedding of its contents joined with newlines. With an embedding that tells all texts
apart and a threshold of 1, L2 serves the requests of one model whose joined contents are
the same, whatever their roles and wherever one message ends and the next begins.
-/
namespace InferenceGateway.Orchestrator
open Library Library.Action Cache Persistence Redis

/-- A get for a request, or the put of its answer, as the orchestrator issues them. -/
structure Issued where
  now : Time
  model : String
  messages : List ChatMessage
  answer : Option Payload

section Runs
variable (sha256 : ByteArray → String) (embed : String → Embedding) (cache : TwoTierCache)

namespace Issued

def call (i : Issued) : CacheCall :=
  match i.answer with
  | none => .get i.model (promptHash sha256 i.model i.messages) (promptText i.messages)
  | some p => .put i.model (promptHash sha256 i.model i.messages) (promptText i.messages)
      p.content p.tokensIn p.tokensOut

def request (i : Issued) : CacheRequest :=
  ⟨i.now, some (embed (promptText i.messages)), i.call sha256⟩

end Issued

/-- What both tiers hold after these puts and gets. -/
def tiersAfter (past : List Issued) : Tiers :=
  (tieredCache cache).state (past.map (Issued.request sha256 embed))

/-- The put stored the row. -/
def Issued.Stores (put : Issued) (row : Row) : Prop :=
  (put.request sha256 embed).row? = some row

/-- Whatever a get returns from L2, in whatever order the rows are scanned, was stored by
earlier puts, and by none that is not the same request. -/
def L2Serves (same : Issued → Issued → Prop) (past : List Issued) (i : Issued) : Prop :=
  i.answer = none → ∀ scan, scan.Perm (tiersAfter sha256 embed cache past).rows → ∀ hit,
    ((tiersAfter sha256 embed cache past).perform cache scan (i.request sha256 embed)).1 =
      .ok (some hit) → hit.tier = .l2 →
    ∃ row, findRow cache scan i.model (embed (promptText i.messages)) = some row ∧
      hit = ⟨row.entry.response, row.entry.tokensIn, row.entry.tokensOut, .l2⟩ ∧
      (∃ put ∈ past, put.Stores sha256 embed row) ∧
      ∀ put ∈ past, put.Stores sha256 embed row → same put i

end Runs

/-- Model and message list are the same. -/
def SameConversation (put get : Issued) : Prop :=
  put.model = get.model ∧ put.messages = get.messages

/-- Model and joined contents are the same. -/
def SameText (put get : Issued) : Prop :=
  put.model = get.model ∧ promptText put.messages = promptText get.messages

/-- An embedding under which two texts have similarity 1 exactly if they are equal, for a
distance that is a number and not negative. -/
structure Ideal (cosineDistance : Embedding → Embedding → Option ℚ)
    (embed : String → Embedding) : Prop where
  number : ∀ text text', ∃ distance,
    cosineDistance (embed text') (embed text) = some distance ∧ 0 ≤ distance
  exact : ∀ text text', cosineDistance (embed text') (embed text) = some 0 ↔ text' = text

section Serves
variable {sha256 : ByteArray → String} {embed : String → Embedding} {cache : TwoTierCache}

theorem stores_iff {put : Issued} {row : Row} : put.Stores sha256 embed row ↔
    ∃ p, put.answer = some p ∧ row = ⟨⟨put.model, promptHash sha256 put.model put.messages,
      embed (promptText put.messages), p.content, p.tokensIn, p.tokensOut⟩, put.now⟩ := by
  obtain ⟨now, model, messages, _ | p⟩ := put <;>
    simp [Issued.Stores, Issued.request, Issued.call, CacheRequest.row?, eq_comm]

/-- At the threshold of 1 only an equal text is similar enough. -/
theorem Ideal.text_eq (hideal : Ideal cache.cosineDistance embed)
    (hthreshold : cache.similarityThreshold = 1) {row : Row} {text text' : String}
    (hsimilar : SimilarEnough cache (embed text) row)
    (hembedding : row.entry.embedding = embed text') : text' = text := by
  obtain ⟨distance, hdistance, hnonneg⟩ := hideal.number text text'
  have hreached := hsimilar distance (by rw [hembedding, hdistance])
  rw [hthreshold] at hreached
  have hzero : distance = 0 := le_antisymm (by simpa using hreached) hnonneg
  exact (hideal.exact text text').mp (by rw [hdistance, hzero])

/-- What a get returns is its origin. -/
theorem perform_get {i : Issued} (hget : i.answer = none) (tiers : Tiers) (scan : List Row) :
    (tiers.perform cache scan (i.request sha256 embed)).1 =
      .ok ((origin cache scan tiers i.now (some (embed (promptText i.messages))) i.model
        (promptHash sha256 i.model i.messages)).map Prod.fst) := by
  obtain ⟨now, model, messages, answer⟩ := i
  obtain rfl : answer = none := hget
  exact congrArg Prod.fst (exec_cacheGet cache scan tiers now _ model _ (promptText messages))

/-- A hit of L2 is a row that the query finds. -/
theorem findRow_of_perform {tiers : Tiers} {scan : List Row} {i : Issued} {hit : CacheHit}
    (hget : i.answer = none)
    (h : (tiers.perform cache scan (i.request sha256 embed)).1 = .ok (some hit))
    (htier : hit.tier = .l2) :
    ∃ row, findRow cache scan i.model (embed (promptText i.messages)) = some row ∧
      hit = ⟨row.entry.response, row.entry.tokensIn, row.entry.tokensOut, .l2⟩ := by
  rw [perform_get hget] at h
  obtain ⟨⟨hit', putAt⟩, horigin, rfl⟩ := Option.map_eq_some_iff.mp (Except.ok.inj h)
  unfold origin at horigin
  split at horigin
  · obtain ⟨rfl, -⟩ := Prod.mk.inj (Option.some.inj horigin)
    simp at htier
  · obtain ⟨row, hfind, hrow⟩ := Option.map_eq_some_iff.mp horigin
    exact ⟨row, hfind, (Prod.mk.inj hrow).1.symm⟩

/-- With an ideal embedding and a threshold of 1, in every run L2 serves a request only what
was stored for the same model and the same contents, joined with newlines. -/
theorem l2_serves_same_text (hthreshold : cache.similarityThreshold = 1)
    (hideal : Ideal cache.cosineDistance embed) (past : List Issued) (i : Issued) :
    L2Serves sha256 embed cache SameText past i := by
  intro hget scan hscan hit hperform htier
  obtain ⟨row, hfind, hhit⟩ := findRow_of_perform hget hperform htier
  have hanswers := (exists_findRow_iff cache).mp ⟨scan, hscan, hfind⟩
  refine ⟨row, hfind, hhit, ?_, fun put _ hput => ?_⟩
  · have hmem := hanswers.mem
    rw [tiersAfter, (tiers_state cache _).2] at hmem
    obtain ⟨r, hr, hrow⟩ := List.mem_filterMap.mp hmem
    obtain ⟨put, hput, rfl⟩ := List.mem_map.mp hr
    exact ⟨put, hput, hrow⟩
  · obtain ⟨p, -, rfl⟩ := stores_iff.mp hput
    exact ⟨hanswers.of_model, hideal.text_eq hthreshold hanswers.similar rfl⟩

end Serves

/-! ## Two conversations with one text -/

/-- One minute in L1, and a threshold that only equal texts reach. -/
def exactTexts : TwoTierCache := ⟨⟨60, minute_pos⟩, 1, equalOrApart⟩

theorem ideal_codePoints : Ideal exactTexts.cosineDistance codePoints where
  number text text' := by
    refine ⟨_, rfl, ?_⟩
    split <;> norm_num
  exact text text' := by
    constructor
    · intro h
      by_contra hne
      have hne' : codePoints text' ≠ codePoints text := fun heq => hne (codePoints_injective heq)
      simp [exactTexts, equalOrApart, hne'] at h
    · rintro rfl
      simp [exactTexts, equalOrApart]

/-- The digests of the two conversations. -/
def conversationDigests (bytes : ByteArray) : String :=
  if bytes.data = "m|user:a\nb".toUTF8.data then
    "bc7120e18fd2c575b24843aec68590c2e00b8c623d489ef9766d55318ee28d5c"
  else if bytes.data = "m|user:a|user:b".toUTF8.data then
    "053282880f76d2a2c636eca2d6f130e2a85b0decd73313b124c6309d94623741"
  else "0000000000000000000000000000000000000000000000000000000000000000"

def oneMessage : Issued := ⟨0, "m", [⟨.user, "a\nb"⟩], some ⟨"reply", 2, 1⟩⟩

def twoMessages : Issued := ⟨1, "m", [⟨.user, "a"⟩, ⟨.user, "b"⟩], none⟩

theorem l2_serves_two_messages :
    L2Serves conversationDigests codePoints exactTexts SameText [oneMessage] twoMessages :=
  l2_serves_same_text rfl ideal_codePoints [oneMessage] twoMessages

/-- The answer to one message is served to the two messages that its lines are. -/
theorem newline_served_as_turn : ¬ L2Serves conversationDigests codePoints exactTexts
    SameConversation [oneMessage] twoMessages := by
  intro h
  have hkeys : l1Key "m" (promptHash conversationDigests "m" [⟨.user, "a"⟩, ⟨.user, "b"⟩]) ≠
      l1Key "m" (promptHash conversationDigests "m" [⟨.user, "a\nb"⟩]) := by
    decide
  have hmissed : unexpired (tiersAfter conversationDigests codePoints exactTexts [oneMessage]).l1
      twoMessages.now (l1Key twoMessages.model
        (promptHash conversationDigests twoMessages.model twoMessages.messages)) = none := by
    rw [tiersAfter, unexpired, (tiers_state exactTexts _).1]
    simp [oneMessage, twoMessages, Issued.request, Issued.call, CacheRequest.stored?,
      Ne.symm hkeys]
  let row : Row := ⟨⟨"m", promptHash conversationDigests "m" [⟨.user, "a\nb"⟩],
    codePoints "a\nb", "reply", 2, 1⟩, 0⟩
  have htext : promptText twoMessages.messages = "a\nb" := by decide
  have hrows : (tiersAfter conversationDigests codePoints exactTexts [oneMessage]).rows = [row] :=
    rfl
  have hfound : findRow exactTexts [row] twoMessages.model (codePoints "a\nb") = some row := by
    simp [findRow, row, twoMessages, exactTexts, equalOrApart]
  have hperform : ((tiersAfter conversationDigests codePoints exactTexts [oneMessage]).perform
      exactTexts [row] (twoMessages.request conversationDigests codePoints)).1 =
        .ok (some ⟨"reply", 2, 1, .l2⟩) := by
    rw [perform_get rfl, origin, hmissed, htext]
    dsimp only
    rw [hfound]
    rfl
  obtain ⟨row', hfound', -, -, hsame⟩ := h rfl [row] (hrows ▸ .refl _) _ hperform rfl
  have hrow : row' = row := by
    rw [htext, hfound] at hfound'
    exact (Option.some.inj hfound').symm
  have hstores : oneMessage.Stores conversationDigests codePoints row' := by
    rw [hrow]
    rfl
  have hmessages := (hsame oneMessage (by simp) hstores).2
  simp [oneMessage, twoMessages] at hmessages

end InferenceGateway.Orchestrator
