import InferenceGateway.Library.KeyedStore
import InferenceGateway.Library.UuidText
import InferenceGateway.Redis.Lists
import InferenceGateway.Redis.Strings
import InferenceGateway.Resilience.Breaker
import InferenceGateway.Resilience.RateLimit

/-!
# One database for all components

The rate limiter, the breaker, the latency tracker and the exact cache share one Redis
database. Each has a key function of its own, and each script or command works on one key. The
first words of the keys differ and the identifiers after them are texts of UUIDs, so no
component ever meets a value of another, and each key behaves as if it were alone.
-/
namespace InferenceGateway.Redis
open Library Resilience

/-! ## Lists and strings under one key -/

inductive ListCall where
  | lpush (value : ℚ)
  | ltrim (start stop : Int)
  | lrange (start stop : Int)
  deriving DecidableEq, Repr

inductive ListReply where
  | length (n : Nat)
  | ok
  | elements (l : List ℚ)
  deriving DecidableEq, Repr

def serveList (l : List ℚ) : ListCall → ListReply × List ℚ
  | .lpush value => (.length (l.length + 1), value :: l)
  | .ltrim start stop => (.ok, range l start stop)
  | .lrange start stop => (.elements (range l start stop), l)

/-- A list key, from a key that does not exist. -/
def listKey : Service (List ℚ) ListCall ListReply := ⟨[], serveList⟩

inductive StringCall where
  | get (now : Time)
  | setEx (now : Time) (value : String) (seconds : Int)
  deriving DecidableEq, Repr

inductive StringReply where
  | value (text : Option String)
  | ok
  | invalidExpire
  deriving DecidableEq, Repr

/-- `GET`, and `SET` with `EX`, which refuses a time that is not ahead. -/
def serveString (stored : Option (Stored String)) :
    StringCall → StringReply × Option (Stored String)
  | .get now =>
    (.value (stored.bind fun stored => if stored.deadline < now then none else some stored.value),
      stored)
  | .setEx now value seconds =>
    if seconds ≤ 0 then (.invalidExpire, stored) else (.ok, some ⟨value, now + seconds⟩)

/-- A string key, from a key that does not exist. -/
def stringKey : Service (Option (Stored String)) StringCall StringReply := ⟨none, serveString⟩

/-- What is stored has been set. -/
theorem exists_setEx {calls : List StringCall} {stored : Stored String}
    (h : stringKey.state calls = some stored) :
    ∃ now seconds, .setEx now stored.value seconds ∈ calls := by
  induction calls using List.reverseRecOn with
  | nil => exact nomatch h
  | append_singleton calls c ih =>
    rw [Service.state_concat] at h
    have hold : stringKey.state calls = some stored →
        ∃ now seconds, .setEx now stored.value seconds ∈ calls ++ [c] := fun hcalls =>
      have ⟨now, seconds, hmem⟩ := ih hcalls
      ⟨now, seconds, List.mem_append_left _ hmem⟩
    cases c with
    | get now => exact hold h
    | setEx now value seconds =>
      simp only [stringKey, serveString] at h
      split at h
      · exact hold h
      · obtain rfl := Option.some.inj h
        exact ⟨now, seconds, by simp⟩

/-! ## The components -/

inductive Value where
  | string (stored : Stored String)
  | list (elements : List ℚ)
  | hash (fields : Breaker.BreakerHash)
  | sortedSet (set : SortedSet)
  deriving DecidableEq, Repr

abbrev Keyspace := String → Option Value

/-- What has a key of its own: the limiter of an API key, the breaker and the latencies of a
backend, and the answer that is cached under the rest of its key, `{model}:{prompt_hash}`. -/
inductive Part where
  | ratelimit (apiKeyId : Uuid)
  | breaker (backendId : Uuid)
  | latency (backendId : Uuid)
  | cache (rest : String)
  deriving DecidableEq, Repr

/-- The functions `_key` of the four modules. -/
def Part.key : Part → String
  | .ratelimit apiKeyId => "ratelimit:" ++ uuidText apiKeyId
  | .breaker backendId => "breaker:" ++ uuidText backendId
  | .latency backendId => "latency:" ++ uuidText backendId
  | .cache rest => "cache:" ++ rest

abbrev Part.State : Part → Type
  | .ratelimit _ => SortedSet
  | .breaker _ => Breaker.BreakerHash
  | .latency _ => List ℚ
  | .cache _ => Option (Stored String)

abbrev Part.Call : Part → Type
  | .ratelimit _ => RateLimit.Request
  | .breaker _ => Breaker.Call
  | .latency _ => ListCall
  | .cache _ => StringCall

abbrev Part.Reply : Part → Type
  | .ratelimit _ => RateLimit.Reply
  | .breaker _ => Breaker.Reply
  | .latency _ => ListReply
  | .cache _ => StringReply

/-- What all replicas agree on: the settings of the breaker and the rows of `api_key`. -/
structure Settings where
  breaker : Breaker.CircuitBreaker
  apiKeys : Uuid → ApiKey

variable (settings : Settings)

/-- The scripts and commands of a part. -/
def Part.service : (p : Part) → Service p.State p.Call p.Reply
  | .ratelimit apiKeyId => RateLimit.limiter (settings.apiKeys apiKeyId)
  | .breaker _ => settings.breaker.service
  | .latency _ => listKey
  | .cache _ => stringKey

/-- An empty set, hash or list is the key that does not exist. -/
def Part.store : (p : Part) → p.State → Option Value
  | .ratelimit _, set => if set.members = [] then none else some (.sortedSet set)
  | .breaker _, fields => if fields = .absent then none else some (.hash fields)
  | .latency _, elements => if elements = [] then none else some (.list elements)
  | .cache _, stored => stored.map .string

/-- What a command finds; a value of another type is none. -/
def Part.fetch : (p : Part) → Option Value → Option p.State
  | .ratelimit _, none => some .empty
  | .ratelimit _, some (.sortedSet set) => some set
  | .breaker _, none => some .absent
  | .breaker _, some (.hash fields) => some fields
  | .latency _, none => some []
  | .latency _, some (.list elements) => some elements
  | .cache _, none => some none
  | .cache _, some (.string stored) => some (some stored)
  | _, _ => none

theorem Part.fetch_store (p : Part) (s : p.State) : p.fetch (p.store s) = some s := by
  cases p with
  | ratelimit apiKeyId =>
    rw [Part.store]
    split
    · rename_i hempty
      obtain ⟨members, deadline, hdeadline⟩ := s
      obtain rfl : members = [] := hempty
      obtain rfl := hdeadline rfl
      rfl
    · rfl
  | breaker backendId =>
    rw [Part.store]
    split
    · rename_i habsent
      exact congrArg some habsent.symm
    · rfl
  | latency backendId =>
    rw [Part.store]
    split
    · rename_i hempty
      exact congrArg some hempty.symm
    · rfl
  | cache rest => cases s <;> rfl

/-- The first letters tell the components apart, the rest of the key the parts of each. -/
theorem Part.key_injective : Function.Injective Part.key := by
  intro p q h
  have hlist : p.key.toList = q.key.toList := congrArg String.toList h
  cases p <;> cases q <;> simp [Part.key, String.toList_append] at hlist
  case cache.cache => rw [String.toList_inj.mp hlist]
  all_goals rw [uuidText_injective (String.toList_inj.mp hlist)]

/-- The database of the gateway. -/
def keyspace : Layout String Value (Part.service settings) where
  key := Part.key
  key_injective := Part.key_injective
  store := Part.store
  fetch := Part.fetch
  fetch_store := Part.fetch_store
  store_initial p := by cases p <;> rfl

/-- In every run of scripts and commands of all components on one database, no command meets a
value of another type; the value under the key of each part, and its replies, are those of that
part alone on its own calls; and there are no other keys. -/
theorem keyspace_refines (calls : List ((p : Part) × p.Call)) :
    (∀ e ∈ (keyspace settings).shared.history calls, e.2.isSome) ∧
    (∀ p : Part,
      (keyspace settings).shared.state calls p.key =
        p.store ((p.service settings).state (Layout.callsOf p calls)) ∧
      Layout.answersOf p ((keyspace settings).shared.history calls) =
        (p.service settings).history (Layout.callsOf p calls)) ∧
    ∀ key, (∀ p : Part, p.key ≠ key) → (keyspace settings).shared.state calls key = none :=
  ⟨(keyspace settings).isSome_of_mem_history calls,
    fun p => ⟨(keyspace settings).state_key calls p, (keyspace settings).answersOf_history calls p⟩,
    fun _ => (keyspace settings).state_of_not_key calls⟩

end InferenceGateway.Redis
