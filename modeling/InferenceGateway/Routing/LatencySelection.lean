import InferenceGateway.Library.SortedHead
import InferenceGateway.Library.UuidText
import InferenceGateway.Resilience.LatencyWindow
import InferenceGateway.Routing.Ranking

/-!
# Choosing while latencies are recorded

`LatencyAwarePolicy.select` reads the samples of one candidate after the other, and other requests
and replicas record latencies in between. What it chooses is best by what it has read, and what it
has read of each candidate was its window at that moment.
-/
namespace InferenceGateway.Routing
open Library Redis Resilience LatencyTracker

/-- `[(await self._tracker.p95(str(b.id)), b) for b in candidates]`. -/
def score : List Backend → TrackerAction (Except IndexError (List (Option ℚ × Backend)))
  | [] => return .ok []
  | b :: candidates => do
    match ← p95 (uuidText b.id) with
    | .error e => return .error e
    | .ok p95 =>
      let scored ← score candidates
      return scored.map fun scored => (p95, b) :: scored

/-- `scored.sort(…)` and `scored[0][1]`. -/
def firstScored (scored : List (Option ℚ × Backend)) : Except IndexError Backend :=
  match (scored.mergeSort fun a b => keyLe (latencyKey a.1) (latencyKey b.1)).head? with
  | none => .error ⟨⟩
  | some pair => .ok pair.2

/-- `LatencyAwarePolicy.select`. -/
def select (candidates : List Backend) : TrackerAction (Except IndexError Backend) :=
  match candidates with
  | [b] => return .ok b
  | _ => do
    let scored ← score candidates
    return scored.bind firstScored

/-- While nothing is recorded the policy is the function of what the tracker answers. -/
theorem exec_score (candidates : List Backend) (db : Redis.Lists ℚ) :
    (score candidates).exec redis db =
      (.ok (candidates.map fun b => (quantile (db (key (uuidText b.id))), b)), db) := by
  induction candidates with
  | nil => rfl
  | cons b candidates ih =>
    unfold score
    rw [Program.exec_bind, exec_p95]
    dsimp only
    rw [Program.exec_bind, ih]
    rfl

theorem exec_select (candidates : List Backend) (db : Redis.Lists ℚ) :
    (select candidates).exec redis db =
      ((latencyAwareSelect (fun id => quantile (db (key (uuidText id)))) candidates).elim
        (.error ⟨⟩) .ok, db) := by
  unfold select
  split
  · rfl
  · rename_i hseveral
    have hlength : candidates.length ≠ 1 := fun hone => by
      obtain ⟨b, rfl⟩ := List.length_eq_one_iff.mp hone
      exact hseveral b rfl
    rw [Program.exec_bind, exec_score, latencyAwareSelect, if_neg hlength]
    refine Prod.ext ?_ rfl
    dsimp only [Program.exec_pure, Except.bind, firstScored]
    generalize ((candidates.map fun b => (quantile (db (key (uuidText b.id))), b)).mergeSort
      fun a b => keyLe (latencyKey a.1) (latencyKey b.1)).head? = first
    cases first <;> rfl

/-! ## Among records -/

/-- What a request or a replica does to the samples. -/
inductive Errand where
  | record (backendId : String) (latencyMs : ℚ)
  | select (candidates : List Backend)

inductive Outcome where
  | recorded
  | selected (chosen : Except IndexError Backend)

def Errand.program (tracker : LatencyTracker) : Errand → TrackerAction Outcome
  | .record backendId latencyMs => do
    tracker.record backendId latencyMs
    return .recorded
  | .select candidates => do return .selected (← Routing.select candidates)

abbrev RoutingPool := Pool (Nat × Errand) (Redis.Lists ℚ) RedisCall RedisReply Outcome

/-- Any number of records and choices, from a Redis without samples. -/
def routing (tracker : LatencyTracker) :
    Pool.System (Nat × Errand) (Redis.Lists ℚ) RedisCall RedisReply Outcome where
  initial := .empty
  starts tag p := p = tag.2.program tracker
  handle db call reply db' := (reply, db') = redis db call
  drift _ _ := False

abbrev RoutingHistory := List ((Nat × Errand) × Program.Event RedisCall RedisReply)

/-- How many samples have been pushed on the list of the key since it was cut. -/
def overdue (key : String) (history : RoutingHistory) : Nat :=
  history.foldl (fun n e => match e.2.1 with
    | .lpush key' _ => if key' = key then n + 1 else n
    | .ltrim key' _ _ => if key' = key then 0 else n
    | .lrange .. => n) 0

/-- The values are the newest of those pushed: all of the window, and no more than are overdue
beside it. -/
abbrev Observed (tracker : LatencyTracker) (past : RoutingHistory) (key : String)
    (values : List ℚ) : Prop :=
  Windowed tracker.windowSize.toNat values (pushed key past) (overdue key past)

/-- The task has read these values at some moment, and they were what a read could observe. -/
def ReadBy (tracker : LatencyTracker) (tag : Nat × Errand) (history : RoutingHistory) (key : String)
    (values : List ℚ) : Prop :=
  ∃ before, before ++ [(tag, ⟨.lrange key 0 (-1), values⟩)] <+: history ∧
    Observed tracker before key values

theorem overdue_concat (key : String) (history : RoutingHistory) (tag : Nat × Errand)
    (e : Program.Event RedisCall RedisReply) :
    overdue key (history ++ [(tag, e)]) = match e.1 with
      | .lpush key' _ => if key' = key then overdue key history + 1 else overdue key history
      | .ltrim key' _ _ => if key' = key then 0 else overdue key history
      | .lrange .. => overdue key history := by
  simp only [overdue, List.foldl_append, List.foldl_cons, List.foldl_nil]

/-- The calls of the tracker. -/
def Proper (tracker : LatencyTracker) : RedisCall → Prop
  | .lpush .. => True
  | .ltrim _ start stop => start = 0 ∧ stop = tracker.windowSize - 1
  | .lrange _ start stop => start = 0 ∧ stop = -1

/-- What a reply to the task means. -/
def Promised (tracker : LatencyTracker) (tag : Nat × Errand) (history : RoutingHistory) :
    (call : RedisCall) → RedisReply call → Prop
  | .lrange key _ _, values => ReadBy tracker tag history key values
  | _, _ => True

/-- The choice is the first of the best candidates by what has been read of each. -/
def ChosenBy (tracker : LatencyTracker) (tag : Nat × Errand) (history : RoutingHistory)
    (candidates : List Backend) (chosen : Backend) : Prop :=
  ∃ before values after, (before ++ (values, chosen) :: after).map Prod.snd = candidates ∧
    (∀ x ∈ before ++ (values, chosen) :: after,
      ReadBy tracker tag history (key (uuidText x.2.id)) x.1) ∧
    (∀ x ∈ before, ¬ coldLe (quantile x.1) (quantile values)) ∧
    ∀ x ∈ after, coldLe (quantile values) (quantile x.1)

/-- How an errand ends. -/
def Ends (tracker : LatencyTracker) (tag : Nat × Errand) (history : RoutingHistory) :
    Outcome → Prop
  | .recorded => ∃ backendId latencyMs, tag.2 = .record backendId latencyMs
  | .selected chosen => ∃ candidates, tag.2 = .select candidates ∧ (candidates = [] ∨
      ∃ b, chosen = .ok b ∧ (candidates = [b] ∨ ChosenBy tracker tag history candidates b))

section Selecting
variable {tracker : LatencyTracker} {tag : Nat × Errand} {history : RoutingHistory}

abbrev selecting (tracker : LatencyTracker) (tag : Nat × Errand) (history : RoutingHistory) :
    Program.Contract RedisCall RedisReply :=
  ⟨Proper tracker, Promised tracker tag history⟩

theorem wp_p95 (backendId : String) : Program.wp (selecting tracker tag history) (p95 backendId)
    fun _ r => ∃ values, r = .ok (quantile values) ∧
      ReadBy tracker tag history (key backendId) values := by
  refine ⟨⟨rfl, rfl⟩, fun raw hraw => ?_⟩
  by_cases hempty : raw = []
  · subst hempty
    exact ⟨[], by rw [quantile_nil], hraw⟩
  · have hlength : (raw.mergeSort fun a b => a ≤ b).length = raw.length :=
      List.length_mergeSort raw
    obtain ⟨value, hvalue⟩ : ∃ value, quantile raw = some value := by
      refine ⟨_, List.getElem?_eq_getElem ?_⟩
      rw [hlength]
      exact p95Index_lt (List.length_pos_of_ne_nil hempty)
    have hget : (raw.mergeSort fun a b => a ≤ b)[p95Index
        (raw.mergeSort fun a b => a ≤ b).length]? = some value := by
      rw [hlength]
      exact hvalue
    simp only [hempty, if_false, hget]
    exact ⟨raw, congrArg Except.ok hvalue.symm, hraw⟩

/-- The scores are the quantiles of what has been read. -/
theorem wp_score (candidates : List Backend) : Program.wp (selecting tracker tag history)
    (score candidates) fun _ r => ∃ reads : List (List ℚ × Backend),
      reads.map Prod.snd = candidates ∧
      (∀ x ∈ reads, ReadBy tracker tag history (key (uuidText x.2.id)) x.1) ∧
      r = .ok (reads.map fun x => (quantile x.1, x.2)) := by
  induction candidates with
  | nil => exact ⟨[], rfl, List.forall_mem_nil _, rfl⟩
  | cons b candidates ih =>
    unfold score
    refine (Program.wp_bind _).mpr (Program.wp_mono (wp_p95 _) ?_)
    rintro trace _ ⟨values, rfl, hread⟩
    refine (Program.wp_bind _).mpr (Program.wp_mono ih ?_)
    rintro trace' _ ⟨reads, hcandidates, hreads, rfl⟩
    refine ⟨(values, b) :: reads, ?_, List.forall_mem_cons.mpr ⟨hread, hreads⟩, rfl⟩
    rw [List.map_cons, hcandidates]

/-- The order of the scores, on what has been read. -/
def bestFirst (x y : List ℚ × Backend) : Bool := coldLe (quantile x.1) (quantile y.1)

theorem bestFirst_trans (x y z : List ℚ × Backend) (hxy : bestFirst x y) (hyz : bestFirst y z) :
    bestFirst x z := coldLe_trans hxy hyz

theorem bestFirst_total (x y : List ℚ × Backend) : bestFirst x y || bestFirst y x :=
  coldLe_total _ _

/-- The first of the scores in order is that of a best candidate. -/
theorem chosenBy_of_reads {reads : List (List ℚ × Backend)} (hne : reads ≠ [])
    (hreads : ∀ x ∈ reads, ReadBy tracker tag history (key (uuidText x.2.id)) x.1) :
    ∃ b, firstScored (reads.map fun x => (quantile x.1, x.2)) = .ok b ∧
      ChosenBy tracker tag history (reads.map Prod.snd) b := by
  have hsorted : (reads.map fun x => (quantile x.1, x.2)).mergeSort
      (fun a b => keyLe (latencyKey a.1) (latencyKey b.1)) =
      (reads.mergeSort bestFirst).map fun x => (quantile x.1, x.2) := by
    refine (List.map_mergeSort fun x _ y _ => ?_).symm
    exact (keyLe_latencyKey _ _).symm
  obtain ⟨⟨values, b⟩, rest, hfirst⟩ :=
    List.exists_cons_of_ne_nil (mergeSort_ne_nil hne bestFirst)
  have hhead : (reads.mergeSort bestFirst).head? = some (values, b) := by
    rw [hfirst]
    rfl
  obtain ⟨before, after, rfl, hbefore, hafter⟩ :=
    exists_split_of_head?_mergeSort bestFirst_trans bestFirst_total hhead
  refine ⟨b, ?_, before, values, after, rfl, hreads, hbefore, hafter⟩
  rw [firstScored, hsorted, hfirst]
  rfl

theorem wp_select (candidates : List Backend) : Program.wp (selecting tracker tag history)
    (select candidates) fun _ r => candidates = [] ∨
      ∃ b, r = .ok b ∧ (candidates = [b] ∨ ChosenBy tracker tag history candidates b) := by
  unfold select
  split
  · rename_i b
    exact .inr ⟨b, rfl, .inl rfl⟩
  · refine (Program.wp_bind _).mpr (Program.wp_mono (wp_score candidates) ?_)
    rintro trace _ ⟨reads, rfl, hreads, rfl⟩
    by_cases hne : reads = []
    · subst hne
      exact .inl rfl
    · obtain ⟨b, hfirst, hchosen⟩ := chosenBy_of_reads hne hreads
      exact .inr ⟨b, hfirst, .inr hchosen⟩

theorem wp_program (tag : Nat × Errand) : Program.wp (selecting tracker tag history)
    (tag.2.program tracker) fun _ outcome => Ends tracker tag history outcome := by
  obtain ⟨n, errand⟩ := tag
  cases errand with
  | record backendId latencyMs =>
    exact ⟨trivial, fun _ _ => ⟨⟨rfl, rfl⟩, fun _ _ => ⟨backendId, latencyMs, rfl⟩⟩⟩
  | select candidates =>
    refine (Program.wp_bind _).mpr (Program.wp_mono (wp_select candidates) fun trace r hr => ?_)
    exact ⟨candidates, rfl, hr⟩

/-- One call keeps every list windowed, and what it reads is windowed. -/
theorem observed_step (hwindow : 1 ≤ tracker.windowSize) {db db' : Redis.Lists ℚ}
    (hdb : ∀ key, Observed tracker history key (db key)) {call : RedisCall}
    {reply : RedisReply call} (hproper : Proper tracker call)
    (hredis : (reply, db') = redis db call) :
    (∀ key, Observed tracker (history ++ [(tag, ⟨call, reply⟩)]) key (db' key)) ∧
      Promised tracker tag (history ++ [(tag, ⟨call, reply⟩)]) call reply := by
  cases call with
  | lpush key' latencyMs =>
    obtain ⟨rfl, rfl⟩ := Prod.mk.inj hredis
    refine ⟨fun key => ?_, trivial⟩
    rw [Observed, pushed_concat, overdue_concat]
    by_cases hkey : key = key'
    · subst hkey
      rw [sample?_lpush_self, Redis.Lists.lpush_self]
      simpa using (hdb key).push latencyMs
    · rw [db.lpush_of_ne _ hkey]
      simpa [sample?, Ne.symm hkey] using hdb key
  | ltrim key' start stop =>
    obtain ⟨rfl, rfl⟩ := Prod.mk.inj hredis
    obtain ⟨rfl, rfl⟩ := hproper
    refine ⟨fun key => ?_, trivial⟩
    rw [Observed, pushed_concat, overdue_concat]
    by_cases hkey : key = key'
    · subst hkey
      rw [Redis.Lists.ltrim_self, range_window _ hwindow]
      exact (hdb key).cut _
    · rw [db.ltrim_of_ne _ hkey]
      simpa [sample?, Ne.symm hkey] using hdb key
  | lrange key' start stop =>
    obtain ⟨rfl, hsame⟩ := Prod.mk.inj hredis
    obtain ⟨rfl, rfl⟩ := hproper
    have hread : db.lrange key' 0 (-1) = db key' := range_all _
    refine ⟨fun key => ?_, history, List.prefix_rfl, ?_⟩
    · rw [Observed, pushed_concat, overdue_concat, hsame]
      exact hdb key
    · rw [hread]
      exact hdb key'

/-- The argument about the pool. -/
def selection (hwindow : 1 ≤ tracker.windowSize) : Pool.Discipline (routing tracker) where
  contract tag history := selecting tracker tag history
  result tag history outcome := Ends tracker tag history outcome
  Inv db history := ∀ key, Observed tracker history key (db key)
  initial key := Windowed.nil _ _
  start tag p hstart history := hstart ▸ wp_program tag
  lasting tag history history' hle call reply hpromised := by
    cases call with
    | lrange key start stop =>
      obtain ⟨before, hbefore, hobserved⟩ := hpromised
      exact ⟨before, hbefore.trans hle, hobserved⟩
    | _ => trivial
  handle tag db history call reply db' hinv hproper hredis :=
    observed_step hwindow hinv hproper hredis
  drift _ _ _ _ hdrift := hdrift.elim

end Selecting

/-- However choices and records are interleaved, a choice that has finished is, of several
candidates, the first of those that are best by what has been read of them: a cold one if there is
one, else one with the least p95; and what has been read of each was the newest samples at that
moment, all of the window and at most those beside it that had not been cut off yet. -/
theorem select_among_records (tracker : LatencyTracker) (hwindow : 1 ≤ tracker.windowSize)
    {w : RoutingPool} (h : Pool.Reachable (routing tracker) w) {n : Nat}
    {candidates : List Backend} {outcome : Outcome}
    (hdone : ((n, .select candidates), .pure outcome) ∈ w.tasks) (hsome : candidates ≠ []) :
    ∃ b, outcome = .selected (.ok b) ∧
      (candidates = [b] ∨ ChosenBy tracker (n, .select candidates) w.history candidates b) := by
  have hends := (selection hwindow).finished h hdone
  cases outcome with
  | recorded =>
    obtain ⟨backendId, latencyMs, hrecord⟩ := hends
    exact nomatch hrecord
  | selected chosen =>
    obtain ⟨candidates', heq, hchosen⟩ := hends
    obtain rfl := Errand.select.inj heq
    obtain ⟨b, rfl, hbest⟩ := hchosen.resolve_left hsome
    exact ⟨b, rfl, hbest⟩

/-- Two cold backends. -/
def coldPair : List Backend :=
  [⟨0, "a", .ollama, "e", "m", 100, true, 0, 0⟩, ⟨1, "b", .ollama, "e", "m", 100, true, 0, 0⟩]

def choiceAndRecord : RoutingPool where
  state := .empty
  history := []
  tasks := [Errand.select coldPair, .record (uuidText 0) 120].map fun errand =>
    ((0, errand), errand.program {})

/-- The record comes between the two reads. -/
theorem select_among_records_between : ∃ b outcome, ((0, Errand.select coldPair), .pure outcome) ∈
      (choiceAndRecord.schedule redis [0, 1, 1, 0]).tasks ∧ outcome = .selected (.ok b) ∧
      (coldPair = [b] ∨ ChosenBy {} (0, .select coldPair)
        (choiceAndRecord.schedule redis [0, 1, 1, 0]).history coldPair b) := by
  have hstarts : ∀ task ∈ choiceAndRecord.tasks, (routing {}).starts task.1 task.2 :=
    List.forall_mem_map.mpr fun errand _ => rfl
  have hreachable : Pool.Reachable (routing {}) (choiceAndRecord.schedule redis [0, 1, 1, 0]) :=
    .schedule (fun _ _ => rfl) (.starts .initial hstarts) _
  obtain ⟨outcome, hdone⟩ : ∃ outcome, ((0, Errand.select coldPair), .pure outcome) ∈
      (choiceAndRecord.schedule redis [0, 1, 1, 0]).tasks :=
    ⟨_, List.mem_cons_self⟩
  obtain ⟨b, hselected, hbest⟩ := select_among_records {} (by decide) hreachable hdone
    (by simp [coldPair])
  exact ⟨b, outcome, hdone, hselected, hbest⟩

end InferenceGateway.Routing
