import InferenceGateway.Redis.Strings

/-!
# The exact tier

L1 keeps the answer of a prompt under `cache:{model}:{prompt_hash}` for a fixed time.
The payload is stored as JSON and read back field by field.
-/
namespace InferenceGateway.Cache
open Redis

/-- The JSON object stored for a prompt. -/
structure Payload where
  content : String
  tokensIn : Int
  tokensOut : Int
  deriving DecidableEq, Repr

def l1Key (model promptHash : String) : String := "cache:" ++ model ++ ":" ++ promptHash

/-- Digests have a fixed length, so a key determines its model, whatever characters the
model consists of, and its digest. -/
theorem l1Key_inj {model model' h h' : String} (hlen : h.length = h'.length) :
    l1Key model h = l1Key model' h' ↔ model = model' ∧ h = h' := by
  constructor
  · intro heq
    have hlist := congrArg String.toList heq
    simp only [l1Key, String.toList_append] at hlist
    obtain ⟨hpre, hh⟩ := List.append_inj' hlist (by simp only [String.length_toList, hlen])
    simp only [List.append_cancel_left_eq, List.append_cancel_right_eq] at hpre
    exact ⟨String.toList_inj.mp hpre, String.toList_inj.mp hh⟩
  · rintro ⟨rfl, rfl⟩
    rfl

/-- Redis refuses an expiry that is not positive. -/
structure ExactCache where
  ttlSeconds : Int
  ttlSeconds_pos : 0 < ttlSeconds

namespace ExactCache

variable (l1 : ExactCache) (db : Strings Payload) (now : Time)

def get (model promptHash : String) : Option CacheHit :=
  match db.get now (l1Key model promptHash) with
  | none => none
  | some data => some ⟨data.content, data.tokensIn, data.tokensOut, .l1⟩

def put (model promptHash content : String) (tokensIn tokensOut : Int) : Strings Payload :=
  db.setEx now (l1Key model promptHash) ⟨content, tokensIn, tokensOut⟩ l1.ttlSeconds

/-- What `get` answers is the payload that is stored under the key. -/
theorem exists_stored {db : Strings Payload} {now : Time} {model promptHash : String}
    {hit : CacheHit} (h : get db now model promptHash = some hit) :
    hit.tier = .l1 ∧ ∃ stored, db (l1Key model promptHash) = some stored ∧
      stored.value = ⟨hit.content, hit.tokensIn, hit.tokensOut⟩ := by
  unfold get at h
  split at h
  · simp at h
  · rename_i data hdata
    obtain rfl := Option.some.inj h
    unfold Strings.get at hdata
    split at hdata
    · simp at hdata
    · rename_i stored hstored
      obtain ⟨-, hvalue⟩ := Option.ite_none_left_eq_some.mp hdata
      exact ⟨rfl, stored, hstored, Option.some.inj hvalue⟩

end ExactCache

end InferenceGateway.Cache
