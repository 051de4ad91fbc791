import InferenceGateway.Library.LuaNumber
import InferenceGateway.Library.Service
import InferenceGateway.Redis.SortedSet

/-!
# Token-budget rate limiter

One sorted set per API key: a member is a reservation id and a cost in one text, its
score is the clock reading of the caller that wrote it. `reserveScript` and
`reconcileScript` follow `_RESERVE_SCRIPT` and `_RECONCILE_SCRIPT`; each runs atomically.
Redis decides by its own clock whether the key has expired, the scripts trim by the
clock reading they are given.
-/
namespace InferenceGateway.Resilience.RateLimit
open Library Redis

/-- `str(uuid.uuid4())`: 36 characters, hexadecimal digits and hyphens. -/
@[ext] structure ReservationId where
  text : String
  length_eq : text.length = 36
  colon_not_mem : ':' ∉ text.toList
  deriving DecidableEq, Repr

/-- `reservation_id .. ':' .. tokens`, for a number read by `tonumber`. -/
def memberName (id : ReservationId) (tokens : Int) : String :=
  id.text ++ ":" ++ LuaNumber.concat (LuaNumber.ofInt tokens)

/-- `tonumber(string.match(m, ':(%-?%d+)$'))`. -/
def memberCost (m : Member) : Option Int := LuaNumber.matchSuffix m.name.toList

/-- The summing loop of the reserve script, from a running total. A member that does not
match makes the script fail: the total cannot be added to `nil`. -/
def sumCosts (total : Int) : List Member → Option Int
  | [] => some total
  | m :: ms =>
    match memberCost m with
    | none => none
    | some cost => sumCosts (LuaNumber.ofInt (total + LuaNumber.ofInt cost)) ms

/-- `_RESERVE_SCRIPT`. The reply `none` is a Lua error; the trim it made is kept. -/
def reserveScript (key : SortedSet) (served now : Time) (window budget estTokens : Int)
    (id : ReservationId) : Option Bool × SortedSet :=
  let key := (key.touch served).zremrangebyscore (now - window)
  match sumCosts 0 key.members with
  | none => (none, key)
  | some total =>
    if LuaNumber.ofInt budget < LuaNumber.ofInt (total + LuaNumber.ofInt estTokens) then
      (some false, key)
    else (some true, (key.zadd now (memberName id estTokens)).expire served window)

/-- `string.sub(m, 1, string.len(reservation_id)) == reservation_id`. -/
def hasPrefix (m : Member) (id : ReservationId) : Bool :=
  m.name.toList.take id.text.length = id.text.toList

/-- `_RECONCILE_SCRIPT`. -/
def reconcileScript (key : SortedSet) (served : Time) (id : ReservationId) (actualTokens : Int)
    (now : Time) : Bool × SortedSet :=
  let key := key.touch served
  match key.members.find? fun m => hasPrefix m id with
  | none => (false, key)
  | some m => (true, (key.zrem m.name).zadd now (memberName id actualTokens))

/-- A call of `RateLimiter.reserve` or `RateLimiter.reconcile` for one API key. -/
inductive Call where
  | reserve (id : ReservationId) (estTokens : Int)
  | reconcile (id : ReservationId) (actualTokens : Int)
  deriving DecidableEq, Repr

/-- A call, the time at which Redis runs its script and the caller's clock reading. -/
structure Request where
  served : Time
  clock : Time
  call : Call
  deriving DecidableEq, Repr

inductive Reply where
  | admitted | denied | settled | missing | raised
  deriving DecidableEq, Repr

variable (apiKey : ApiKey)

def reserve (key : SortedSet) (served clock : Time) (id : ReservationId) (estTokens : Int) :
    Reply × SortedSet :=
  match reserveScript key served clock apiKey.windowSeconds apiKey.tokenBudget estTokens id with
  | (some true, key') => (.admitted, key')
  | (some false, key') => (.denied, key')
  | (none, key') => (.raised, key')

def reconcile (key : SortedSet) (served clock : Time) (id : ReservationId) (actualTokens : Int) :
    Reply × SortedSet :=
  match reconcileScript key served id actualTokens clock with
  | (true, key') => (.settled, key')
  | (false, key') => (.missing, key')

def serve (key : SortedSet) (r : Request) : Reply × SortedSet :=
  match r.call with
  | .reserve id estTokens => reserve apiKey key r.served r.clock id estTokens
  | .reconcile id actualTokens => reconcile key r.served r.clock id actualTokens

/-- The limiter of one API key, from a key that does not exist. -/
def limiter : Service SortedSet Request Reply := ⟨.empty, serve apiKey⟩

abbrev Event := Request × Reply

/-- The id that a reserve call draws. -/
def Request.drawn (r : Request) : Option ReservationId :=
  match r.call with
  | .reserve id _ => some id
  | .reconcile _ _ => none

/-! ## What each call does to the key -/

section Cases
variable (key : SortedSet) (served clock : Time) (id : ReservationId)

/-- The key as the reserve script sees it when it starts to sum. -/
def trimmed : SortedSet :=
  (key.touch served).zremrangebyscore (clock - apiKey.windowSeconds)

theorem reserve_cases (est : Int) :
    ((reserve apiKey key served clock id est).1 ≠ .admitted ∧
      (reserve apiKey key served clock id est).2 = trimmed apiKey key served clock) ∨
    (∃ total, sumCosts 0 (trimmed apiKey key served clock).members = some total ∧
      ¬ LuaNumber.ofInt apiKey.tokenBudget < LuaNumber.ofInt (total + LuaNumber.ofInt est) ∧
      reserve apiKey key served clock id est =
        (.admitted, ((trimmed apiKey key served clock).zadd clock (memberName id est)).expire
          served apiKey.windowSeconds)) := by
  unfold trimmed
  simp only [reserve, reserveScript]
  cases hsum : sumCosts 0 ((key.touch served).zremrangebyscore
      (clock - apiKey.windowSeconds)).members with
  | none => exact .inl ⟨by simp only [ne_eq, reduceCtorEq, not_false_iff], rfl⟩
  | some total =>
    by_cases htest : LuaNumber.ofInt apiKey.tokenBudget <
        LuaNumber.ofInt (total + LuaNumber.ofInt est)
    · simp only [if_pos htest]
      exact .inl ⟨by simp only [ne_eq, reduceCtorEq, not_false_iff], trivial⟩
    · simp only [if_neg htest]
      exact .inr ⟨total, rfl, htest, trivial⟩

theorem reconcile_cases (actual : Int) :
    ((∀ m ∈ (key.touch served).members, ¬ hasPrefix m id) ∧
      reconcile key served clock id actual = (.missing, key.touch served)) ∨
    (∃ m ∈ (key.touch served).members, hasPrefix m id ∧
      reconcile key served clock id actual =
        (.settled, ((key.touch served).zrem m.name).zadd clock (memberName id actual))) := by
  simp only [reconcile, reconcileScript]
  cases hfind : (key.touch served).members.find? fun m => hasPrefix m id with
  | none => exact .inl ⟨by simpa using hfind, rfl⟩
  | some m =>
    exact .inr ⟨m, List.mem_of_find?_eq_some hfind, by simpa using List.find?_some hfind, rfl⟩

end Cases

/-! ## A key and three reservations for concrete runs -/

/-- 100 tokens per minute. -/
def perMinute : ApiKey := ⟨1, 100, 60, by decide, by decide, by decide, by decide⟩

def idA : ReservationId := ⟨"aaaaaaaa-0000-4000-8000-000000000001", by decide, by decide⟩
def idB : ReservationId := ⟨"bbbbbbbb-0000-4000-8000-000000000002", by decide, by decide⟩
def idC : ReservationId := ⟨"cccccccc-0000-4000-8000-000000000003", by decide, by decide⟩

end InferenceGateway.Resilience.RateLimit
