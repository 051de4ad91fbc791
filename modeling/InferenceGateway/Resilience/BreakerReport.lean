import InferenceGateway.Resilience.BreakerHistory

/-!
# What a record reports

`record` answers with the field `state` as it stands after the write. Only a success and a
trip write that field, so until the first of them a record leaves it absent and has nothing
to report.
-/
namespace InferenceGateway.Resilience.Breaker
open Library

def Call.outcome? : Call → Option Bool
  | .allow _ => none
  | .record ok _ => some ok

/-- The outcomes that have been recorded, in their order. -/
def outcomes (calls : List Call) : List Bool := calls.filterMap Call.outcome?

/-- A record answers with the state that it leaves: open if the stored failures have reached
the threshold, and closed otherwise. -/
def Reports (cb : CircuitBreaker) (key : BreakerHash) (ok : Bool) (now : Time) : Prop :=
  ∃ text failures, (cb.serve key (.record ok now)).1 = .recorded (some text) ∧
    (cb.serve key (.record ok now)).2.failures = some failures ∧
    text ∈ ["closed", "open", "half_open"] ∧
    (text = "open" ↔ cb.failureThreshold ≤ (failures : Nat)) ∧
    (text = "closed" ↔ ¬ cb.failureThreshold ≤ (failures : Nat))

theorem outcomes_append (calls calls' : List Call) :
    outcomes (calls ++ calls') = outcomes calls ++ outcomes calls' := List.filterMap_append

@[simp] theorem outcomes_allow (calls : List Call) (now : Time) :
    outcomes (calls ++ [.allow now]) = outcomes calls := by
  simp [outcomes, Call.outcome?]

@[simp] theorem outcomes_record (calls : List Call) (ok : Bool) (now : Time) :
    outcomes (calls ++ [.record ok now]) = outcomes calls ++ [ok] := by
  simp [outcomes, Call.outcome?]

section OneCall
variable {cb : CircuitBreaker} {key : BreakerHash}

/-- An allow writes nothing, or moves an open circuit to half-open. -/
theorem serve_allow_cases (cb : CircuitBreaker) (key : BreakerHash) (now : Time) :
    (cb.serve key (.allow now)).2 = key ∨
    (key.state = some .opened ∧
      (cb.serve key (.allow now)).2 = { key with state := some .halfOpen }) := by
  by_cases hopen : key.circuit = .opened
  · obtain ⟨state, failures, openedAt⟩ := key
    cases state with
    | none => exact .inl rfl
    | some state =>
      obtain rfl : state = .opened := hopen
      cases openedAt with
      | none => exact .inl rfl
      | some t =>
        rw [serve_allow_of_opened rfl rfl]
        split
        · exact .inr ⟨rfl, rfl⟩
        · exact .inl rfl
  · exact .inl (congrArg Prod.snd (serve_allow_of_ne_opened hopen))

theorem serve_record_reply (ok : Bool) (now : Time) :
    (cb.serve key (.record ok now)).1 =
      .recorded ((cb.serve key (.record ok now)).2.state.map CircuitState.text) :=
  rfl

theorem failures_record (cb : CircuitBreaker) (key : BreakerHash) (ok : Bool) (now : Time) :
    (cb.serve key (.record ok now)).2.failures =
      some (if ok then 0 else key.failures.getD 0 + 1) := by
  cases ok with
  | true => rfl
  | false =>
    rw [serve_record_fail]
    split <;> rfl

/-- No record leaves the circuit half-open. -/
theorem state_record_ne_halfOpen (ok : Bool) (now : Time) :
    (cb.serve key (.record ok now)).2.state ≠ some .halfOpen := by
  cases ok with
  | true => simp [serve_record_ok]
  | false =>
    rw [serve_record_fail]
    split
    · simp
    · rename_i hno
      intro hhalf
      exact hno (.inl (by simp [BreakerHash.circuit, show key.state = _ from hhalf]))

/-- A failure leaves a state if it finds one or trips the breaker. -/
theorem written_fail_iff (now : Time) :
    (cb.serve key (.record false now)).2.state ≠ none ↔
      key.state ≠ none ∨ cb.failureThreshold ≤ (key.failures.getD 0 + 1 : Nat) := by
  rw [serve_record_fail]
  split
  · rename_i htrip
    refine iff_of_true nofun (htrip.imp_left fun hhalf hnone => ?_)
    simp [BreakerHash.circuit, hnone] at hhalf
  · rename_i hno
    exact (or_iff_left (not_or.mp hno).2).symm

/-- Of a hash that a run has led to, a record reports the state exactly if it leaves one. -/
theorem reports_iff_written {past : List Event} {ok : Bool} {now : Time}
    (h : Tracks cb past (cb.serve key (.record ok now)).2) :
    Reports cb key ok now ↔ (cb.serve key (.record ok now)).2.state ≠ none := by
  have hfailures := failures_record cb key ok now
  have hcount : (if ok then 0 else key.failures.getD 0 + 1) = failuresSinceSuccess past := by
    rw [← h.failures, hfailures, Option.getD_some]
  rw [hcount] at hfailures
  constructor
  · rintro ⟨text, failures, hreply, -⟩ hnone
    rw [serve_record_reply, hnone] at hreply
    exact nomatch hreply
  · intro hwritten
    obtain ⟨state, hstate⟩ := Option.ne_none_iff_exists'.mp hwritten
    have htripped := h.tripped
    rw [BreakerHash.Tripped, hstate] at htripped
    refine ⟨state.text, failuresSinceSuccess past, ?_, hfailures, ?_, ?_⟩
    · rw [serve_record_reply, hstate, Option.map_some]
    · cases state <;> decide
    · cases state with
      | closed =>
        have hbelow : ¬ cb.failureThreshold ≤ failuresSinceSuccess past := by
          simpa using htripped
        exact ⟨iff_of_false (by decide) hbelow, iff_of_true rfl hbelow⟩
      | opened =>
        have hreached : cb.failureThreshold ≤ failuresSinceSuccess past := by
          simpa using htripped
        exact ⟨iff_of_true rfl hreached, iff_of_false (by decide) (not_not.mpr hreached)⟩
      | halfOpen => exact absurd hstate (state_record_ne_halfOpen ok now)

end OneCall

/-! ## When the state has been written -/

section Runs
variable (cb : CircuitBreaker)

theorem service_state_concat (calls : List Call) (c : Call) :
    cb.service.state (calls ++ [c]) = (cb.serve (cb.service.state calls) c).2 :=
  cb.service.state_concat calls c

/-- Before the first success the stored count is that of all failures. -/
theorem failures_of_no_success {calls : List Call} (h : true ∉ outcomes calls) :
    (cb.service.state calls).failures.getD 0 = (outcomes calls).count false := by
  induction calls using List.reverseRecOn with
  | nil => rfl
  | append_singleton calls c ih =>
    rw [service_state_concat]
    cases c with
    | allow now =>
      rw [outcomes_allow] at h ⊢
      rw [← ih h]
      obtain hsame | ⟨-, hmoved⟩ := serve_allow_cases cb (cb.service.state calls) now
      · rw [hsame]
      · rw [hmoved]
    | record ok now =>
      rw [outcomes_record, List.mem_append, List.mem_singleton, not_or] at h
      obtain rfl : ok = false := by simpa using Ne.symm h.2
      have hfailures := failures_record cb (cb.service.state calls) false now
      rw [hfailures, outcomes_record, List.count_append, ← ih h.1]
      rfl

/-- The field is there exactly after a success, or once the failures have reached the
threshold. -/
theorem written_iff (hpos : 1 ≤ cb.failureThreshold) (calls : List Call) :
    (cb.service.state calls).state ≠ none ↔
      true ∈ outcomes calls ∨ cb.failureThreshold ≤ (outcomes calls).count false := by
  induction calls using List.reverseRecOn with
  | nil =>
    refine iff_of_false (fun hwritten => hwritten rfl) ?_
    simp [outcomes]
    omega
  | append_singleton calls c ih =>
    rw [service_state_concat]
    cases c with
    | allow now =>
      rw [outcomes_allow, ← ih]
      obtain hsame | ⟨hopen, hmoved⟩ := serve_allow_cases cb (cb.service.state calls) now
      · rw [hsame]
      · simp [hmoved, hopen]
    | record ok now =>
      rw [outcomes_record]
      cases ok with
      | true => exact iff_of_true nofun (.inl (by simp))
      | false =>
        rw [written_fail_iff, ih]
        by_cases hsuccess : true ∈ outcomes calls
        · exact iff_of_true (.inl (.inl hsuccess)) (.inl (List.mem_append_left _ hsuccess))
        · rw [failures_of_no_success cb hsuccess]
          have hnone : true ∉ outcomes calls ++ [false] := by simp [hsuccess]
          have hcount : (outcomes calls ++ [false]).count false =
              (outcomes calls).count false + 1 := by simp
          rw [or_iff_right hsuccess, or_iff_right hnone, hcount]
          omega

theorem reports_iff (hpos : 1 ≤ cb.failureThreshold) (calls : List Call) (ok : Bool)
    (now : Time) :
    Reports cb (cb.service.state calls) ok now ↔
      ok = true ∨ true ∈ outcomes calls ∨
        cb.failureThreshold ≤ (outcomes calls).count false + 1 := by
  have htracks := service_tracks cb hpos (calls ++ [.record ok now])
  have hwritten := written_iff cb hpos (calls ++ [.record ok now])
  rw [service_state_concat] at htracks hwritten
  rw [reports_iff_written htracks, hwritten, outcomes_record]
  cases ok with
  | true => simp
  | false => simp [List.count_append]

/-- The first record of a run, with only allows before it. -/
theorem exists_first_record {calls : List Call} {ok : Bool}
    (h : (outcomes calls).head? = some ok) :
    ∃ before now, before ++ [.record ok now] <+: calls ∧ outcomes before = [] := by
  obtain ⟨rest, hrest⟩ := List.head?_eq_some_iff.mp h
  obtain ⟨before, c, after, rfl, hbefore, hc, -⟩ := List.filterMap_eq_cons_iff.mp hrest
  cases c with
  | allow now => exact nomatch hc
  | record ok' now =>
    obtain rfl := Option.some.inj hc
    refine ⟨before, now, ⟨after, ?_⟩, List.filterMap_eq_nil_iff.mpr hbefore⟩
    rw [List.append_assoc]
    rfl

/-- In every reachable state a record reports the state it leaves, exactly if it is a success,
or a success has been recorded before, or the failures reach the threshold with it. All
records of a run do, exactly if the threshold is one or the first of them is a success. -/
theorem record_reports_iff (hpos : 1 ≤ cb.failureThreshold) (calls : List Call) :
    (∀ ok now, Reports cb (cb.service.state calls) ok now ↔
      ok = true ∨ true ∈ outcomes calls ∨
        cb.failureThreshold ≤ (outcomes calls).count false + 1) ∧
    (cb.service.Along (fun _ key c => ∀ ok now, c = .record ok now → Reports cb key ok now) calls ↔
      cb.failureThreshold = 1 ∨ (outcomes calls).head? ≠ some false) := by
  refine ⟨reports_iff cb hpos calls, fun h => ?_, fun h before c hc ok now hrecord => ?_⟩
  · by_contra hno
    obtain ⟨hthreshold, hfirst⟩ := not_or.mp hno
    obtain ⟨before, now, hprefix, hnone⟩ := exists_first_record (not_not.mp hfirst)
    have hreports := (reports_iff cb hpos before false now).mp (h before _ hprefix false now rfl)
    rw [hnone] at hreports
    obtain hok | hmem | hreached := hreports
    · exact nomatch hok
    · exact nomatch hmem
    · rw [List.count_nil] at hreached
      omega
  · subst hrecord
    refine (reports_iff cb hpos before ok now).mpr ?_
    obtain hone | hfirst := h
    · exact .inr (.inr (by omega))
    · obtain ⟨after, rfl⟩ := hc
      rw [outcomes_append, outcomes_record] at hfirst
      cases houtcomes : outcomes before with
      | nil => exact .inl (by simpa [houtcomes] using hfirst)
      | cons first rest =>
        obtain rfl : first = true := by simpa [houtcomes] using hfirst
        exact .inr (.inl List.mem_cons_self)

/-- With a threshold of two, a success and then two failures. -/
theorem record_reports_iff_recovered :
    (CircuitBreaker.service ⟨2, 30⟩).Along
      (fun _ key c => ∀ ok now, c = .record ok now → Reports ⟨2, 30⟩ key ok now)
      [.allow 0, .record true 1, .record false 2, .record false 3, .allow 40] :=
  (record_reports_iff ⟨2, 30⟩ (by decide) _).2.mpr (.inr (by decide))

end Runs

/-- A failure that finds no key and stays below the threshold: the caller gets `None`. -/
theorem first_failure_unreported :
    ((CircuitBreaker.service ⟨3, 30⟩).serve .absent (.record false 0)).1 = .recorded none ∧
      ¬ Reports ⟨3, 30⟩ ((CircuitBreaker.service ⟨3, 30⟩).state []) false 0 := by
  refine ⟨rfl, ?_⟩
  rintro ⟨text, failures, hreply, -⟩
  exact nomatch hreply

end InferenceGateway.Resilience.Breaker
