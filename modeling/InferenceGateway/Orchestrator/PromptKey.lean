import InferenceGateway.Library.TagCode
import InferenceGateway.Orchestrator.Prompt
import InferenceGateway.Cache.Exact
import Mathlib.Tactic.Tauto

/-!
# Which conversations share an L1 key

The digest identifies the text `model|role:content|role:content…`. Contents are not
escaped, so that text is a `TagCode`: one content that holds `|user:` reads like two
messages. The conversations that share a key are exactly those of one model that become
equal once all contents are cut at the role markers they hold.
-/
namespace InferenceGateway.Orchestrator
open Library Redis Cache

/-- The markers `|system:`, `|user:` and `|assistant:`. -/
def roleCode : TagCode Role Char where
  sep := '|'
  tail r := (r.value ++ ":").toList
  tags := [.system, .user, .assistant]
  complete r := by cases r <;> decide
  sep_not_mem r := by cases r <;> decide
  unambiguous r s cs := by
    rintro ⟨a, rfl⟩ ⟨b, h⟩
    cases r <;> cases s <;> simp_all [Role.value]

def segments (messages : List ChatMessage) : List (Role × List Char) :=
  messages.map fun m => (m.role, m.content.toList)

/-- The messages obtained by opening a new message at every role marker of a content. -/
def recut (messages : List ChatMessage) : List ChatMessage :=
  (roleCode.canonical (segments messages)).map fun p => ⟨p.1, String.ofList p.2⟩

example : recut [⟨.user, "a|user:b|system:"⟩] = [⟨.user, "a"⟩, ⟨.user, "b"⟩, ⟨.system, ""⟩] := by
  decide

theorem recut_eq_recut_iff {ms ms' : List ChatMessage} :
    recut ms = recut ms' ↔
      roleCode.canonical (segments ms) = roleCode.canonical (segments ms') := by
  refine List.map_injective_iff.mpr ?_ |>.eq_iff
  rintro ⟨r, cs⟩ ⟨r', cs'⟩ h
  simp only [ChatMessage.mk.injEq, String.ofList_inj] at h
  exact Prod.ext h.1 h.2

/-- Everything after the model in the digested text. -/
def promptBody (messages : List ChatMessage) : List Char :=
  '|' :: List.intercalate ['|']
    (messages.map fun m => (m.role.value ++ ":" ++ m.content).toList)

theorem toList_promptRaw (model : String) (messages : List ChatMessage) :
    (promptRaw model messages).toList = model.toList ++ promptBody messages := by
  simp [promptRaw, promptBody, Function.comp_def]

/-- A non-empty message list is written as tagged segments. -/
theorem promptBody_cons (m : ChatMessage) (ms : List ChatMessage) :
    promptBody (m :: ms) = roleCode.text (segments (m :: ms)) := by
  induction ms generalizing m with
  | nil => simp [promptBody, segments, roleCode, TagCode.text, TagCode.marker]
  | cons n ms ih =>
    have hn := ih n
    simp only [promptBody, List.map_cons] at hn ⊢
    rw [List.intercalate_cons_cons, segments, List.map_cons, TagCode.text_cons,
      ← segments, ← hn]
    simp [roleCode]

theorem promptBody_eq_iff {ms ms' : List ChatMessage} :
    promptBody ms = promptBody ms' ↔ recut ms = recut ms' := by
  rw [recut_eq_recut_iff]
  -- The empty list is written as a lone separator, which no tagged segment is.
  have hne : ∀ (m : ChatMessage) (ns : List ChatMessage), promptBody [] ≠ promptBody (m :: ns) := by
    intro m ns h
    have hlen := congrArg List.length h
    rw [promptBody_cons, segments, List.map_cons, TagCode.text_cons] at hlen
    simp [promptBody, roleCode] at hlen
  cases ms with
  | nil =>
    cases ms' with
    | nil => simp
    | cons m ns =>
      refine iff_of_false (hne m ns) ?_
      simp [segments, TagCode.canonical]
  | cons m ms =>
    cases ms' with
    | nil =>
      refine iff_of_false (hne m ms).symm ?_
      simp [segments, TagCode.canonical]
    | cons n ns => rw [promptBody_cons, promptBody_cons, roleCode.text_eq_text_iff]

/-- A request as far as the exact tier is concerned. -/
structure Conversation where
  model : String
  messages : List ChatMessage
  deriving DecidableEq, Repr

namespace Conversation

def raw (c : Conversation) : ByteArray := (promptRaw c.model c.messages).toUTF8

def key (sha256 : ByteArray → String) (c : Conversation) : String :=
  l1Key c.model (promptHash sha256 c.model c.messages)

/-- Two different message lists for one model that can no longer be told apart once
their contents are cut at the role markers they hold. -/
def Confusable (x y : Conversation) : Prop :=
  x.model = y.model ∧ x.messages ≠ y.messages ∧ recut x.messages = recut y.messages

theorem raw_eq_iff {x y : Conversation} (h : x.model = y.model) :
    x.raw = y.raw ↔ recut x.messages = recut y.messages := by
  rw [raw, raw, String.toUTF8_eq_toByteArray, String.toUTF8_eq_toByteArray,
    String.toByteArray_inj, ← String.toList_inj, toList_promptRaw, toList_promptRaw, h,
    List.append_cancel_left_eq, promptBody_eq_iff]

variable {sha256 : ByteArray → String}

/-- With digests of a fixed length and no collision on the two texts, the keys agree
exactly when the models do and the texts do. -/
theorem key_eq_iff (h64 : ∀ bytes, (sha256 bytes).length = 64) {x y : Conversation}
    (hsha : sha256 x.raw = sha256 y.raw → x.raw = y.raw) :
    x.key sha256 = y.key sha256 ↔
      x.model = y.model ∧ recut x.messages = recut y.messages := by
  rw [key, key, l1Key_inj (by rw [promptHash, promptHash, h64, h64])]
  refine and_congr_right fun hmodel => ?_
  rw [← raw_eq_iff hmodel]
  exact ⟨hsha, congrArg sha256⟩

/-- An L1 hit for `y` after storing an answer for `x` in an empty cache. -/
def Serves (sha256 : ByteArray → String) (x y : Conversation) : Prop :=
  ∃ (l1 : ExactCache) (answer : Payload) (stored asked : Time),
    (ExactCache.get
      (l1.put Strings.empty stored x.model (promptHash sha256 x.model x.messages)
        answer.content answer.tokensIn answer.tokensOut)
      asked y.model (promptHash sha256 y.model y.messages)).isSome

theorem serves_iff {x y : Conversation} : Serves sha256 x y ↔ x.key sha256 = y.key sha256 := by
  constructor
  · rintro ⟨l1, answer, stored, asked, h⟩
    by_contra hne
    have hget := Strings.get_setEx_of_ne Strings.empty stored
      (fun heq : y.key sha256 = x.key sha256 => hne heq.symm)
      (⟨answer.content, answer.tokensIn, answer.tokensOut⟩ : Payload) l1.ttlSeconds asked
    simp only [key] at hget
    simp [ExactCache.get, ExactCache.put, hget] at h
  · intro h
    refine ⟨⟨1, by decide⟩, ⟨"", 0, 0⟩, 0, 0, ?_⟩
    simp only [key] at h
    have hlive : ¬ (1 : Time) < 0 := by decide
    simp [ExactCache.get, ExactCache.put, h, Strings.get_setEx_self, hlive]

/-- Equal keys mean equal conversations, and a hit serves only the conversation it was
stored for, for every pair of conversations except the confusable ones. -/
theorem key_separates_iff (h64 : ∀ bytes, (sha256 bytes).length = 64) (x y : Conversation)
    (hsha : sha256 x.raw = sha256 y.raw → x.raw = y.raw) :
    ((x.key sha256 = y.key sha256 → x = y) ∧ (Serves sha256 x y → x = y)) ↔
      ¬ Confusable x y := by
  rw [serves_iff, and_self, key_eq_iff h64 hsha]
  obtain ⟨model, messages⟩ := x
  obtain ⟨model', messages'⟩ := y
  simp only [Confusable, Conversation.mk.injEq]
  tauto

/-- Digests of two prompts, and a constant of the same length elsewhere. -/
def sampleDigests (bytes : ByteArray) : String :=
  if bytes.data = "m|user:hi".toUTF8.data then
    "91f9e5bce095b44cec317db416b4342372f05a8005410c6ae5d738d69f26e15e"
  else if bytes.data = "m|user:bye".toUTF8.data then
    "2eaabe41796f29549e7fb59fe5bb986195117fe549b2b7262f0ccf065e2d9580"
  else "0000000000000000000000000000000000000000000000000000000000000000"

theorem key_separates_hi_bye :
    let x : Conversation := ⟨"m", [⟨.user, "hi"⟩]⟩
    let y : Conversation := ⟨"m", [⟨.user, "bye"⟩]⟩
    ((x.key sampleDigests = y.key sampleDigests → x = y) ∧
      (Serves sampleDigests x y → x = y)) ↔ ¬ Confusable x y := by
  refine key_separates_iff ?_ _ _ ?_
  · intro bytes
    unfold sampleDigests
    split_ifs <;> decide
  · intro h
    exact absurd h (by decide)

/-- One message with a role marker in its content and the two messages it reads like
share a key, whatever the digest function. -/
theorem embedded_marker_shares_key :
    let x : Conversation := ⟨"m", [⟨.user, "a|user:b"⟩]⟩
    let y : Conversation := ⟨"m", [⟨.user, "a"⟩, ⟨.user, "b"⟩]⟩
    x ≠ y ∧ ∀ sha256 : ByteArray → String,
      x.key sha256 = y.key sha256 ∧ Serves sha256 x y := by
  have hraw : promptRaw "m" [⟨.user, "a|user:b"⟩] = promptRaw "m" [⟨.user, "a"⟩, ⟨.user, "b"⟩] := by
    decide
  refine ⟨by decide, fun sha256 => ?_⟩
  have hkey : key sha256 ⟨"m", [⟨.user, "a|user:b"⟩]⟩ =
      key sha256 ⟨"m", [⟨.user, "a"⟩, ⟨.user, "b"⟩]⟩ := by
    rw [key, key, promptHash, promptHash, hraw]
  exact ⟨hkey, serves_iff.mpr hkey⟩

/-- In particular conversations whose contents hold no role marker never share a key. -/
theorem not_confusable_of_no_marker {x y : Conversation}
    (hx : ∀ p ∈ segments x.messages, (roleCode.cut p.2).2 = [])
    (hy : ∀ p ∈ segments y.messages, (roleCode.cut p.2).2 = []) : ¬ Confusable x y := by
  rintro ⟨-, hne, heq⟩
  rw [recut_eq_recut_iff, roleCode.canonical_eq_self hx, roleCode.canonical_eq_self hy] at heq
  refine hne (List.map_injective_iff.mpr ?_ heq)
  rintro ⟨r, c⟩ ⟨r', c'⟩ h
  simpa [String.toList_inj] using h

end Conversation

end InferenceGateway.Orchestrator
