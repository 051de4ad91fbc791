import InferenceGateway.Library.Execution
import InferenceGateway.Library.Quantile
import InferenceGateway.Library.RecentWindow
import InferenceGateway.Redis.Lists
import Mathlib.Algebra.Order.Ring.Rat
import Mathlib.Tactic.Linarith

/-!
# Latency tracker

The latest samples of a backend are a list in Redis. A record pushes its sample and then
cuts the list to the window, in two calls; `p95` reads the whole list and sorts it.
-/
namespace InferenceGateway.Resilience
open Library Redis

inductive RedisCall where
  | lpush (key : String) (value : ℚ)
  | ltrim (key : String) (start stop : Int)
  | lrange (key : String) (start stop : Int)
  deriving DecidableEq, Repr

abbrev RedisReply : RedisCall → Type
  | .lpush .. => Nat
  | .ltrim .. => Unit
  | .lrange .. => List ℚ

abbrev TrackerAction := Program RedisCall RedisReply

/-- How Redis answers and what it holds then. -/
def redis : Program.Handler RedisCall RedisReply (Redis.Lists ℚ) := fun db call =>
  match call with
  | .lpush key value => ((db.lpush key value key).length, db.lpush key value)
  | .ltrim key start stop => ((), db.ltrim key start stop)
  | .lrange key start stop => (db.lrange key start stop, db)

structure LatencyTracker where
  windowSize : Int := 200

namespace LatencyTracker

/-- `_key`. -/
def key (backendId : String) : String := "latency:" ++ backendId

section Methods
variable (tracker : LatencyTracker) (backendId : String)

def record (latencyMs : ℚ) : TrackerAction Unit :=
  .perform (.lpush (key backendId) latencyMs) fun _ =>
    .perform (.ltrim (key backendId) 0 (tracker.windowSize - 1)) .pure

structure IndexError where
  deriving DecidableEq, Repr

/-- `min(int(len(values) * 0.95), len(values) - 1)`, without rounding. -/
def p95Index (length : Nat) : Nat := min (length * 19 / 20) (length - 1)

def p95 : TrackerAction (Except IndexError (Option ℚ)) :=
  .perform (.lrange (key backendId) 0 (-1)) fun raw =>
    if raw = [] then .pure (.ok none)
    else
      let values := raw.mergeSort fun a b => a ≤ b
      match values[p95Index values.length]? with
      | none => .pure (.error ⟨⟩)
      | some value => .pure (.ok (some value))

/-- One record after another. -/
def recordAll : List ℚ → TrackerAction Unit
  | [] => .pure ()
  | latencyMs :: later => do
    tracker.record backendId latencyMs
    recordAll later

end Methods

variable {tracker : LatencyTracker} {backendId : String} {db : Redis.Lists ℚ}

theorem p95Index_lt {length : Nat} (h : 0 < length) : p95Index length < length := by
  unfold p95Index
  omega

/-- The answer of `p95` for what the list holds. -/
def quantile (values : List ℚ) : Option ℚ :=
  (values.mergeSort fun a b => a ≤ b)[p95Index values.length]?

theorem quantile_nil : quantile [] = none := by simp [quantile]

theorem quantile_of_perm {values values' : List ℚ} (h : values.Perm values') :
    quantile values = quantile values' := by
  rw [quantile, quantile, mergeSort_eq_of_perm h, h.length_eq]

/-- `p95` answers the quantile of the list, and never runs out of it. -/
theorem exec_p95 (backendId : String) (db : Redis.Lists ℚ) :
    (p95 backendId).exec redis db = (.ok (quantile (db (key backendId))), db) := by
  have hraw : db.lrange (key backendId) 0 (-1) = db (key backendId) := range_all _
  by_cases hempty : db (key backendId) = []
  · simp [p95, Program.exec, redis, hraw, hempty, quantile_nil]
  · have hlt := p95Index_lt (List.length_pos_of_ne_nil hempty)
    have hsome : ∃ value, quantile (db (key backendId)) = some value := by
      refine ⟨_, List.getElem?_eq_getElem ?_⟩
      rwa [List.length_mergeSort]
    obtain ⟨value, hvalue⟩ := hsome
    have hget : ((db (key backendId)).mergeSort fun a b => a ≤ b)[p95Index
        ((db (key backendId)).mergeSort fun a b => a ≤ b).length]? = some value := by
      rw [List.length_mergeSort]
      exact hvalue
    simp only [p95, Program.exec, redis, hraw, hempty, if_false, hget, hvalue]

/-- More than 19 of 20 values are at or below the quantile, and one of 20 is at or above. -/
theorem quantile_spec {values : List ℚ} (hne : values ≠ []) : ∃ v ∈ values,
    quantile values = some v ∧ 19 * values.length < 20 * values.countP (fun x => x ≤ v) ∧
      values.length ≤ 20 * values.countP fun x => v ≤ x := by
  have hlt : p95Index values.length < (values.mergeSort fun a b => a ≤ b).length := by
    rw [List.length_mergeSort]
    exact p95Index_lt (List.length_pos_of_ne_nil hne)
  obtain ⟨hbelow, habove⟩ := countP_mergeSort hlt
  refine ⟨_, List.mem_mergeSort.mp (List.getElem_mem hlt), List.getElem?_eq_getElem hlt, ?_, ?_⟩
  · have hindex : values.length * 19 / 20 ≤ p95Index values.length + 0 := by
      have hpos := List.length_pos_of_ne_nil hne
      unfold p95Index
      omega
    omega
  · have hindex : p95Index values.length ≤ values.length * 19 / 20 := min_le_left _ _
    omega

/-! ## The window of a sequence of records -/

/-- A record pushes its sample and leaves the window. -/
theorem windowed_record (hwindow : 1 ≤ tracker.windowSize) {samples : List ℚ}
    (h : Windowed tracker.windowSize.toNat (db (key backendId)) samples 0) (latencyMs : ℚ) :
    Windowed tracker.windowSize.toNat
      (((tracker.record backendId latencyMs).exec redis db).2 (key backendId))
      (latencyMs :: samples) 0 := by
  have hlist : ((tracker.record backendId latencyMs).exec redis db).2 (key backendId) =
      (latencyMs :: db (key backendId)).take tracker.windowSize.toNat := by
    simp [record, Program.exec, redis, range_window _ hwindow]
  rw [hlist]
  exact (h.push latencyMs).cut 0

theorem windowed_recordAll (hwindow : 1 ≤ tracker.windowSize) {samples : List ℚ}
    (h : Windowed tracker.windowSize.toNat (db (key backendId)) samples 0) (latencies : List ℚ) :
    Windowed tracker.windowSize.toNat
      (((tracker.recordAll backendId latencies).exec redis db).2 (key backendId))
      (latencies.reverse ++ samples) 0 := by
  induction latencies generalizing db samples with
  | nil => exact h
  | cons latencyMs later ih =>
    have hlater := ih (windowed_record hwindow h latencyMs)
    rw [List.reverse_cons, List.append_assoc]
    unfold recordAll
    rwa [Program.exec_bind]

/-- The values that were recorded last, as many as the window takes. -/
def recent (tracker : LatencyTracker) (latencies : List ℚ) : List ℚ :=
  latencies.drop (latencies.length - tracker.windowSize.toNat)

theorem length_recent (latencies : List ℚ) :
    (tracker.recent latencies).length = min latencies.length tracker.windowSize.toNat := by
  rw [recent, List.length_drop]
  omega

theorem recent_reverse (latencies : List ℚ) :
    (tracker.recent latencies).reverse = latencies.reverse.take tracker.windowSize.toNat := by
  rw [recent, List.reverse_drop]
  by_cases h : latencies.length ≤ tracker.windowSize.toNat
  · rw [List.take_of_length_le (by simp; omega), List.take_of_length_le (by simpa using h)]
  · congr 1
    omega

/-- After any records on a backend that had none, `p95` answers one of the values in the
window: more than 19/20 of them are at or below it and at least 1/20 at or above. It does not
depend on the order in which the list holds them. -/
theorem p95_quantile (tracker : LatencyTracker) (hwindow : 1 ≤ tracker.windowSize)
    (backendId : String) {db : Redis.Lists ℚ} (hnew : db (key backendId) = []) {latencies : List ℚ}
    (hsome : latencies ≠ []) :
    let db' := ((tracker.recordAll backendId latencies).exec redis db).2
    let values := tracker.recent latencies
    values.length = min latencies.length tracker.windowSize.toNat ∧
    (∃ v ∈ values, ((p95 backendId).exec redis db').1 = .ok (some v) ∧
      (19 / 20 : ℚ) * values.length < values.countP (fun x => x ≤ v) ∧
      (1 / 20 : ℚ) * values.length ≤ values.countP fun x => v ≤ x) ∧
    ∀ db'' : Redis.Lists ℚ, (db'' (key backendId)).Perm values →
      ((p95 backendId).exec redis db'').1 = ((p95 backendId).exec redis db').1 := by
  intro db' values
  have hstored : (db' (key backendId)).Perm values := by
    have hnone : Windowed tracker.windowSize.toNat (db (key backendId)) [] 0 := by
      rw [hnew]
      exact .nil _ _
    have hlist : db' (key backendId) = (latencies.reverse ++ []).take tracker.windowSize.toNat :=
      (windowed_recordAll hwindow hnone latencies).eq_take
    rw [hlist, List.append_nil, ← recent_reverse]
    exact List.reverse_perm _
  have hlength : values.length = min latencies.length tracker.windowSize.toNat :=
    length_recent latencies
  have hne : values ≠ [] := by
    have hpos := List.length_pos_of_ne_nil hsome
    refine List.ne_nil_of_length_pos ?_
    omega
  refine ⟨hlength, ?_, fun db'' hperm => ?_⟩
  · obtain ⟨v, hv, hquantile, hbelow, habove⟩ := quantile_spec hne
    refine ⟨v, hv, ?_, ?_, ?_⟩
    · rw [exec_p95, quantile_of_perm hstored, hquantile]
    · have hbelow' : (19 * values.length : ℚ) < 20 * values.countP fun x => x ≤ v := by
        exact_mod_cast hbelow
      linarith
    · have habove' : (values.length : ℚ) ≤ 20 * values.countP fun x => v ≤ x := by
        exact_mod_cast habove
      linarith
  · rw [exec_p95, exec_p95, quantile_of_perm (hperm.trans hstored.symm)]

/-- A window of five after ten records. -/
theorem p95_quantile_ten : ∃ v ∈ [(6 : ℚ), 7, 8, 9, 10],
    ((p95 "backend-b").exec redis (((LatencyTracker.mk 5).recordAll "backend-b"
      [1, 2, 3, 4, 5, 6, 7, 8, 9, 10]).exec redis .empty).2).1 = .ok (some v) := by
  have hsome : [(1 : ℚ), 2, 3, 4, 5, 6, 7, 8, 9, 10] ≠ [] := by simp
  obtain ⟨v, hv, hp95, -⟩ :=
    (p95_quantile ⟨5⟩ (by decide) "backend-b" (show Redis.Lists.empty _ = [] from rfl) hsome).2.1
  exact ⟨v, hv, hp95⟩

end LatencyTracker

end InferenceGateway.Resilience
