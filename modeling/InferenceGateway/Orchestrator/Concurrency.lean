import InferenceGateway.Library.Slots
import InferenceGateway.Orchestrator.HotReload

/-!
# Calls in flight

The semaphore of a backend is made when a request first asks for it, and stays for the life
of the process. A request holds a slot of it from entering the semaphore to leaving it, in
which time it calls the backend and does nothing else, and leaves it however the call ends.
-/
namespace InferenceGateway.Orchestrator
open Library Library.Action Backends Cache Persistence Redis

variable {α : Type}

/-! ## Semaphores -/

/-- `self._semaphores`: the free slots of each semaphore that has been made. -/
abbrev Semaphores := Uuid → Option Nat

/-- `_semaphore_for`: the free slots of the semaphore of a backend, which is made if there is
none. -/
def semaphoreFor (perBackendConcurrency : Nat) (semaphores : Semaphores) (backendId : Uuid) :
    Nat × Semaphores :=
  match semaphores backendId with
  | some free => (free, semaphores)
  | none => (perBackendConcurrency,
      Function.update semaphores backendId (some perBackendConcurrency))

/-- A semaphore is entered if there is a free slot; waiting for one may be cancelled. Leaving
it gives the slot back. -/
def SemaphoreHandles (perBackendConcurrency : Nat) (semaphores : Semaphores) :
    (op : Op) → Reply op → Semaphores → Prop
  | .acquire backendId, r, semaphores' =>
      let (free, made) := semaphoreFor perBackendConcurrency semaphores backendId
      (0 < free ∧ r = .ok () ∧ semaphores' = Function.update made backendId (some (free - 1))) ∨
      (semaphores' = made ∧ ∃ e, r = .error e)
  | .release backendId, _, semaphores' =>
      let (free, made) := semaphoreFor perBackendConcurrency semaphores backendId
      semaphores' = Function.update made backendId (some (free + 1))
  | _, _, semaphores' => semaphores' = semaphores

/-- The gateway with the semaphores of its process. -/
structure Guarded where
  running : Running
  semaphores : Semaphores

/-- Chat requests, upserts and reloads in one process, from no semaphores. -/
def guarded (cache : TwoTierCache) (gw : RequestOrchestrator) (table : List Backend)
    (perBackendConcurrency : Nat) : Pool.System Nat Guarded Op Reply Outcome where
  initial := ⟨⟨⟨Strings.empty, [], table, {}⟩, 0⟩, fun _ => none⟩
  starts _ p := ∃ purpose, Starts gw purpose p
  handle s op r s' := (hotReload cache gw table).handle s.running op r s'.running ∧
    SemaphoreHandles perBackendConcurrency s.semaphores op r s'.semaphores
  drift s s' := (hotReload cache gw table).drift s.running s'.running ∧
    s'.semaphores = s.semaphores

/-- The slots of a backend that nobody holds. -/
def freeSlots (perBackendConcurrency : Nat) (s : Guarded) (backendId : Uuid) : Nat :=
  (s.semaphores backendId).getD perBackendConcurrency

/-- The backend whose semaphore has been entered and not left. -/
def hold : Option Uuid → Event → Option Uuid
  | _, ⟨.acquire backendId, .ok _⟩ => some backendId
  | _, ⟨.release _, _⟩ => none
  | holding, _ => holding

def held (trace : List Event) : Option Uuid := trace.foldl hold none

theorem held_concat (trace : List Event) (ev : Event) :
    held (trace ++ [ev]) = hold (held trace) ev := by
  simp [held]

/-- How many calls of the backend are in flight: its semaphore has been entered for each. -/
def callsInFlight (w : Pool Nat Guarded Op Reply Outcome) (backendId : Uuid) : Nat :=
  w.holders held backendId

/-! ## Requests as sequences of calls -/

/-- A trace after this past: calls of offered backends, and other operations between them. -/
inductive Segments : List Event → List Event → Prop
  | nil {past : List Event} : Segments past []
  | outside {past trace : List Event} {ev : Event} (hop : ev.1.outside = true)
      (hrest : Segments (past ++ [ev]) trace) : Segments past (ev :: trace)
  | call {past trace rest : List Event} {backend : Backend} {client : Client}
      {r : Except Raised Unit} (hoffered : Offered past backend client)
      (hcall : CallTrace backend client trace r) (hrest : Segments (past ++ trace) rest) :
      Segments past (trace ++ rest)

namespace Segments
variable {past trace trace' : List Event} {req : ChatRequest} {streaming : Bool}
  {backend : Backend} {client : Client}

theorem append (h : Segments past trace) (h' : Segments (past ++ trace) trace') :
    Segments past (trace ++ trace') := by
  induction h with
  | nil => simpa using h'
  | outside hop _ ih => exact .outside hop (ih (by simpa using h'))
  | call hoffered hcall _ ih =>
    rw [List.append_assoc]
    exact .call hoffered hcall (ih (by simpa using h'))

theorem of_outside (h : ∀ ev ∈ trace, ev.1.outside = true) : Segments past trace := by
  induction trace generalizing past with
  | nil => exact .nil
  | cons ev trace ih =>
    rw [List.forall_mem_cons] at h
    exact .outside h.1 (ih h.2)

theorem of_body {r : Except Raised (Pass α)}
    (h : BodyTrace req streaming backend client trace r) (hoffered : Offered past backend client) :
    Segments past trace := by
  cases h with
  | cancelled hcall _ => simpa using Segments.call hoffered hcall .nil
  | failed hcall _ hops _ =>
    exact .call hoffered hcall (.of_outside fun ev hev => (hops ev hev).outside)
  | answered hcall hlogs _ => exact .call hoffered hcall (.of_outside hlogs.outside_of_settled)

theorem of_walk {rem : List (Backend × Client)} {err : Option Raised} {r : Except Raised α}
    (h : WalkTrace req streaming rem err trace r)
    (hoffered : ∀ pair ∈ rem, Offered past pair.1 pair.2) : Segments past trace := by
  induction h generalizing past with
  | exhausted hlogs =>
    exact .of_outside (hlogs.outside (fun _ => ClockOp.outside) fun _ _ htail ev hev =>
      (htail.ops ev hev).outside)
  | unselected => exact .outside rfl .nil
  | stopped => exact .outside rfl .nil
  | unasked => exact .outside rfl (.outside rfl .nil)
  | rejected _ _ ih =>
    refine .outside rfl (.outside rfl (ih fun pair hpair => ?_))
    exact (hoffered pair (List.mem_filter.mp hpair).1).later.later
  | raised hpair hbody =>
    exact .outside rfl (.outside rfl
      (.of_body hbody (hoffered _ (List.mem_of_find?_eq_some hpair)).later.later))
  | done hpair hbody =>
    exact .outside rfl (.outside rfl
      (.of_body hbody (hoffered _ (List.mem_of_find?_eq_some hpair)).later.later))
  | next hpair hbody _ ih =>
    refine .outside rfl (.outside rfl (.append
      (.of_body hbody (hoffered _ (List.mem_of_find?_eq_some hpair)).later.later)
      (ih fun pair hpair => ?_)))
    exact (hoffered pair (List.mem_filter.mp hpair).1).later.later.later

theorem of_lead (h : Lead req trace) : Segments past trace := by
  obtain ⟨start, reservation, look, rfl, hops, -⟩ := h
  exact .outside rfl (.outside rfl (.of_outside fun ev hev => (hops ev hev).outside))

/-- Every request is such a sequence. -/
theorem of_request {r : Except Raised α} (h : RequestTrace req streaming trace r) :
    Segments [] trace := by
  cases h with
  | unread => exact .outside rfl .nil
  | unreserved => exact .outside rfl (.outside rfl .nil)
  | denied => exact .outside rfl (.outside rfl .nil)
  | interrupted hlead hops _ =>
    refine .append (.of_lead hlead) (.of_outside fun ev hev => ?_)
    obtain hlook | hcandidates := hops ev hev
    · exact hlook.outside
    · rw [hcandidates]
      rfl
  | hit hlead hlogs => exact .append (.of_lead hlead) (.of_outside hlogs.outside_of_hit)
  | unavailable hlead => exact .append (.of_lead hlead) (.outside rfl .nil)
  | @walked lead trace remaining r hlead _ hwalk =>
    refine .append (.of_lead hlead) (.outside rfl (.of_walk hwalk fun pair hpair => ?_))
    exact ⟨req.model, remaining, by simp, hpair⟩

end Segments

/-! ## Slots along a request -/

/-- What may be done while a slot is held: calling the backend, passing its text on, and
leaving the semaphore. -/
def WhileHeld (backendId : Uuid) (op : Op) : Prop :=
  op = .release backendId ∨ (∃ client, op.Uses client) ∨ ∃ chunk, op = .emit (.text chunk)

/-- A request is in order with its slots. -/
structure SlotOrder (past : List Event) (ev : Event) : Prop where
  entered : ∀ id, ev.1 = .acquire id → held past = none
  left : ∀ id, ev.1 = .release id → held past = some id
  calling : ∀ client, ev.1.Uses client →
    ∃ backend, Offered past backend client ∧ held past = some backend.id
  inside : ∀ id, held past = some id → WhileHeld id ev.1
  failed : ∀ id earlier op e, held past = some id → past = earlier ++ [⟨op, .error e⟩] →
    ev.1 = .release id

/-- The last operation has not raised. -/
def Calm (past : List Event) : Prop := ∀ earlier op e, past ≠ earlier ++ [⟨op, .error e⟩]

theorem calm_concat (past : List Event) (op : Op) (a : Ret op) : Calm (past ++ [⟨op, .ok a⟩]) := by
  intro earlier op' e heq
  have hlast := List.singleton_inj.mp (List.append_inj' heq rfl).2
  obtain ⟨rfl, hr⟩ := Sigma.mk.inj hlast
  simp at hr

theorem hold_of_outside {ev : Event} (h : ev.1.outside = true) (holding : Option Uuid) :
    hold holding ev = holding := by
  obtain ⟨op, r⟩ := ev
  cases op <;> first | rfl | simp [Op.outside] at h

/-- Between calls no slot is held. -/
theorem SlotOrder.of_outside {past : List Event} {ev : Event} (h : ev.1.outside = true)
    (hnone : held past = none) : SlotOrder past ev := by
  obtain ⟨op, r⟩ := ev
  refine ⟨fun _ _ => hnone, fun id heq => ?_, fun client huses => ?_, ?_, ?_⟩
  · obtain rfl : op = .release id := heq
    simp [Op.outside] at h
  · cases op <;> first | exact huses.elim | simp [Op.outside] at h
  all_goals simp [hnone]

section Within
variable {backend : Backend} {client : Client} {past trace : List Event}

/-- The operations of a call between entering and leaving its semaphore. -/
def Within (client : Client) (op : Op) : Prop := Opens client op ∨ ContinueOp client op

theorem Within.cases {op : Op} (h : Within client op) :
    op.Uses client ∨ ∃ chunk, op = .emit (.text chunk) := by
  rcases h with h | h
  · cases op <;> first | exact .inl h | exact h.elim
  · cases op with
    | anext => exact .inl h
    | emit event =>
      obtain ⟨chunk, rfl⟩ := h
      exact .inr ⟨chunk, rfl⟩
    | _ => exact h.elim

theorem Op.Uses.eq {client' : Client} {op : Op} (h : op.Uses client) (h' : op.Uses client') :
    client' = client := by
  cases op <;> first | exact h'.symm.trans h | exact h.elim

theorem hold_of_within {ev : Event} (h : Within client ev.1) (holding : Option Uuid) :
    hold holding ev = holding := by
  obtain ⟨op, r⟩ := ev
  rcases h.cases with huses | ⟨chunk, heq⟩
  · cases op <;> first | rfl | exact huses.elim
  · obtain rfl : op = .emit (.text chunk) := heq
    rfl

/-- As long as nothing raises, the call goes on. -/
theorem SlotOrder.of_within {ev : Event} (h : Within client ev.1) (hcalm : Calm past)
    (hheld : held past = some backend.id) (hoffered : Offered past backend client) :
    SlotOrder past ev := by
  obtain ⟨op, r⟩ := ev
  have hcases := h.cases
  refine ⟨fun id heq => ?_, fun id heq => ?_, fun client' huses => ?_, fun id hid => ?_,
    fun id earlier op e hid heq => absurd heq (hcalm earlier op e)⟩
  · obtain rfl : op = .acquire id := heq
    rcases hcases with huses | ⟨chunk, heq⟩
    · exact huses.elim
    · simp at heq
  · obtain rfl : op = .release id := heq
    rcases hcases with huses | ⟨chunk, heq⟩
    · exact huses.elim
    · simp at heq
  · rcases hcases with huses' | ⟨chunk, heq⟩
    · obtain rfl := huses'.eq huses
      exact ⟨backend, hoffered, hheld⟩
    · obtain rfl : op = .emit (.text chunk) := heq
      exact huses.elim
  · rcases hcases with huses | hemits
    · exact .inr (.inl ⟨client, huses⟩)
    · exact .inr (.inr hemits)

/-- The part of a call in which nothing raises. -/
theorem within_smooth (hsmooth : Smooth trace) (hops : ∀ ev ∈ trace, Within client ev.1)
    (hcalm : Calm past) (hheld : held past = some backend.id)
    (hoffered : Offered past backend client) :
    Justified SlotOrder past trace ∧ Calm (past ++ trace) := by
  induction trace generalizing past with
  | nil => exact ⟨trivial, by simpa using hcalm⟩
  | cons ev trace ih =>
    obtain ⟨op, r⟩ := ev
    rw [List.forall_mem_cons] at hops
    obtain ⟨⟨a, rfl⟩, hlater⟩ : (∃ a : Ret op, r = .ok a) ∧ Smooth trace :=
      List.forall_mem_cons.mp hsmooth
    have hheld' : held (past ++ [⟨op, .ok a⟩]) = some backend.id := by
      rw [held_concat, hold_of_within hops.1, hheld]
    have hrest := ih hlater hops.2 (calm_concat past op a) hheld' hoffered.later
    exact ⟨⟨.of_within hops.1 hcalm hheld hoffered, hrest.1⟩, by simpa using hrest.2⟩

theorem held_within (hops : ∀ ev ∈ trace, Within client ev.1) :
    held (past ++ trace) = held past := by
  induction trace generalizing past with
  | nil => rw [List.append_nil]
  | cons ev trace ih =>
    rw [List.forall_mem_cons] at hops
    rw [← List.singleton_append, ← List.append_assoc, ih hops.2, held_concat,
      hold_of_within hops.1]

/-- All operations of a call before it leaves its semaphore. -/
theorem within_ended {r : Except Raised Unit} (hended : Ended trace r)
    (hops : ∀ ev ∈ trace, Within client ev.1) (hcalm : Calm past)
    (hheld : held past = some backend.id) (hoffered : Offered past backend client) :
    Justified SlotOrder past trace := by
  cases r with
  | ok u => exact (within_smooth hended hops hcalm hheld hoffered).1
  | error e =>
    obtain ⟨before, op, rfl, hsmooth⟩ := hended
    rw [List.forall_mem_append] at hops
    obtain ⟨hbefore, hcalm'⟩ := within_smooth hsmooth hops.1 hcalm hheld hoffered
    refine justified_append.mpr ⟨hbefore, .of_within (hops.2 _ (by simp)) hcalm' ?_ hoffered.later,
      trivial⟩
    rw [held_within hops.1, hheld]

/-- A call enters and leaves its semaphore. -/
theorem CallTrace.slotOrder {r : Except Raised Unit} (h : CallTrace backend client trace r)
    (hnone : held past = none) (hoffered : Offered past backend client) :
    Justified SlotOrder past trace ∧ held (past ++ trace) = none := by
  have henters : ∀ r, SlotOrder past ⟨.acquire backend.id, r⟩ := fun r =>
    ⟨fun _ _ => hnone, nofun, fun _ huses => huses.elim, by simp [hnone], by simp [hnone]⟩
  cases h with
  | @blocked e =>
    refine ⟨⟨henters _, trivial⟩, ?_⟩
    rw [held_concat, hnone]
    rfl
  | @entered opening rest ended hopens hops hended left =>
    have hheld : held (past ++ [⟨.acquire backend.id, .ok ()⟩]) = some backend.id := held_concat ..
    have hwithin : ∀ ev ∈ opening :: rest, Within client ev.1 :=
      List.forall_mem_cons.mpr ⟨.inl hopens, fun ev hev => .inr (hops ev hev)⟩
    have hcall := within_ended hended hwithin (calm_concat past _ _) hheld hoffered.later
    have hkept : held (past ++ [⟨.acquire backend.id, .ok ()⟩] ++ (opening :: rest)) =
        some backend.id := by rw [held_within hwithin, hheld]
    refine ⟨⟨henters _, justified_append.mpr ⟨hcall, ?_, trivial⟩⟩, ?_⟩
    · refine ⟨nofun, fun id heq => ?_, fun _ huses => huses.elim, fun id hid => .inl ?_,
        fun id _ _ _ hid _ => ?_⟩
      · rw [hkept, Op.release.inj heq]
      · rw [hkept] at hid
        rw [Option.some.inj hid]
      · rw [hkept] at hid
        rw [Option.some.inj hid]
    · have hsplit : past ++ ⟨.acquire backend.id, .ok ()⟩ ::
          (opening :: rest ++ [⟨.release backend.id, left⟩]) =
          past ++ [⟨.acquire backend.id, .ok ()⟩] ++ (opening :: rest) ++
            [⟨.release backend.id, left⟩] := by simp
      rw [hsplit, held_concat]
      rfl

/-- A sequence of calls is in order with its slots, and ends with none. -/
theorem Segments.slotOrder (h : Segments past trace) (hnone : held past = none) :
    Justified SlotOrder past trace ∧ held (past ++ trace) = none := by
  induction h with
  | nil => exact ⟨trivial, by rwa [List.append_nil]⟩
  | outside hop _ ih =>
    have hnone' := (held_concat ..).trans ((hold_of_outside hop _).trans hnone)
    obtain ⟨hrest, hend⟩ := ih hnone'
    exact ⟨⟨.of_outside hop hnone, hrest⟩, by simpa using hend⟩
  | call hoffered hcall _ ih =>
    obtain ⟨horder, hnone'⟩ := hcall.slotOrder hnone hoffered
    obtain ⟨hrest, hend⟩ := ih hnone'
    exact ⟨justified_append.mpr ⟨horder, hrest⟩, by simpa using hend⟩

end Within

/-! ## Slots and the tasks of a process -/

section Tasks
variable {gw : RequestOrchestrator} {purpose : Purpose} {p q : Program Op Reply Outcome}
  {trace : List Event}

theorem AdminOp.outside {op : Op} (h : AdminOp op) : op.outside = true := by
  cases op <;> first | rfl | exact h.elim

/-- Every task is in order with its slots, and ends with none. -/
theorem Starts.slotOrder (hstart : Starts gw purpose p) :
    Program.wp (.expecting fun _ _ => True) p fun trace _ =>
      Justified SlotOrder [] trace ∧ held trace = none := by
  cases purpose with
  | request model =>
    cases hstart with
    | complete req =>
      apply (Program.wp_map _ _).mpr
      apply wp_mono (handleComplete_trace (.of_allowed fun _ => trivial))
      exact fun _ _ htrace => (Segments.of_request htrace).slotOrder rfl
    | stream req =>
      apply (Program.wp_map _ _).mpr
      apply wp_mono (handleStream_trace (.of_allowed fun _ => trivial))
      exact fun _ _ htrace => (Segments.of_request htrace).slotOrder rfl
  | admin =>
    have hcloses : ClosesOld ⟨fun op => op.outside = true, fun _ _ => True⟩ :=
      ⟨fun _ hop _ => hop.outside, fun _ _ _ _ _ => rfl⟩
    have hquiet := Program.wp_kept (hcloses.wp_starts hstart)
    refine Program.wp_weaken (Program.wp_mono hquiet ?_) (fun _ _ => trivial) fun _ _ => id
    exact fun _ _ h => (Segments.of_outside fun ev hev => (h.1 ev hev).1).slotOrder rfl

theorem slotOrder_of_follows (hstart : Starts gw purpose p) (h : p.Follows trace q) :
    Justified SlotOrder [] trace := by
  obtain ⟨rest, r, hall, -⟩ := h.exists_end hstart.slotOrder (fun _ _ => trivial) fun op =>
    ⟨.error .cancelled, trivial⟩
  exact (justified_append.mp hall).1

end Tasks

/-! ## The bound -/

section Runs
variable {cache : TwoTierCache} {gw : RequestOrchestrator} {table : List Backend}
  {perBackendConcurrency : Nat} {w : Pool Nat Guarded Op Reply Outcome}

theorem semaphoreFor_eq (perBackendConcurrency : Nat) (semaphores : Semaphores) (id : Uuid) :
    semaphoreFor perBackendConcurrency semaphores id =
      ((semaphores id).getD perBackendConcurrency,
        Function.update semaphores id (some ((semaphores id).getD perBackendConcurrency))) := by
  unfold semaphoreFor
  split
  · rename_i free hsome
    rw [hsome, Option.getD_some, ← hsome, Function.update_eq_self]
  · rename_i hnone
    rw [hnone, Option.getD_none]

/-- An operation of a task in order moves a slot between its semaphore and the task. -/
theorem SlotOrder.moves {past : List Event} {op : Op} {r : Reply op} {s s' : Guarded}
    (horder : SlotOrder past ⟨op, r⟩)
    (hhandle : SemaphoreHandles perBackendConcurrency s.semaphores op r s'.semaphores) :
    Pool.Moves (freeSlots perBackendConcurrency) held past s ⟨op, r⟩ s' := by
  intro x
  unfold freeSlots Pool.slots
  rw [held_concat]
  cases op with
  | acquire id =>
    rw [horder.entered id rfl]
    simp only [SemaphoreHandles, semaphoreFor_eq, Function.update_idem] at hhandle
    rcases hhandle with ⟨hfree, rfl, heq⟩ | ⟨heq, e, rfl⟩
    · rw [heq, Function.update_apply]
      by_cases hx : x = id
      · subst hx
        simp only [hold, Option.getD_some, if_true, reduceCtorEq, if_false]
        omega
      · have hne : some id ≠ some x := by simpa using Ne.symm hx
        simp [hold, hx, hne]
    · rw [heq, Function.update_apply]
      by_cases hx : x = id
      · subst hx
        simp [hold]
      · simp [hold, hx]
  | release id =>
    rw [horder.left id rfl]
    simp only [SemaphoreHandles, semaphoreFor_eq, Function.update_idem] at hhandle
    rw [hhandle, Function.update_apply]
    by_cases hx : x = id
    · subst hx
      simp [hold]
    · have hne : some id ≠ some x := by simpa using Ne.symm hx
      simp [hold, hx, hne]
  | _ =>
    have hsame : s'.semaphores = s.semaphores := hhandle
    rw [hsame]
    rfl

/-- Each task is in order with what it has done and with whatever it does next. -/
theorem slotOrder_next (h : Pool.Reachable (guarded cache gw table perBackendConcurrency) w)
    (hnodup : (w.tasks.map Prod.fst).Nodup) {tag : Nat} {op : Op}
    {next : Reply op → Program Op Reply Outcome} (htask : (tag, .perform op next) ∈ w.tasks)
    (r : Reply op) : SlotOrder (Pool.own tag w.history) ⟨op, r⟩ := by
  obtain ⟨p, ⟨purpose, hstart⟩, hfollows⟩ := h.follows hnodup _ htask
  exact (slotOrder_of_follows hstart (hfollows.snoc r)).split

/-- A slot of a backend is free or held. -/
theorem freeSlots_add (h : Pool.Reachable (guarded cache gw table perBackendConcurrency) w)
    (hnodup : (w.tasks.map Prod.fst).Nodup) (backendId : Uuid) :
    freeSlots perBackendConcurrency w.state backendId + callsInFlight w backendId =
      perBackendConcurrency := by
  have hinitial : freeSlots perBackendConcurrency
      (guarded cache gw table perBackendConcurrency).initial backendId =
      perBackendConcurrency := rfl
  rw [← hinitial]
  refine Pool.Reachable.conserved rfl ?_ ?_ h hnodup backendId
  · intro w tag op next r state' h hnodup htask hhandle
    exact (slotOrder_next h hnodup htask r).moves hhandle.2
  · intro s s' hdrift
    unfold freeSlots
    rw [hdrift.2]

/-- The task waits for a client that it has been offered for this backend only. -/
def CallsFor (w : Pool Nat Guarded Op Reply Outcome) (backendId : Uuid)
    (task : Nat × Program Op Reply Outcome) : Prop :=
  ∃ op next client, task.2 = .perform op next ∧ op.Uses client ∧
    ∀ backend, Offered (Pool.own task.1 w.history) backend client → backend.id = backendId

/-- A task that calls a backend holds a slot of it. -/
theorem CallsFor.held (h : Pool.Reachable (guarded cache gw table perBackendConcurrency) w)
    (hnodup : (w.tasks.map Prod.fst).Nodup) {backendId : Uuid}
    {task : Nat × Program Op Reply Outcome} (htask : task ∈ w.tasks)
    (hcalls : CallsFor w backendId task) :
    Orchestrator.held (Pool.own task.1 w.history) = some backendId := by
  obtain ⟨tag, p⟩ := task
  obtain ⟨op, next, client, rfl, huses, honly⟩ := hcalls
  have horder := slotOrder_next h hnodup htask (.error .cancelled)
  obtain ⟨backend, hoffered, hheld⟩ := horder.calling client huses
  rw [hheld, honly backend hoffered]

theorem length_le_callsInFlight
    (h : Pool.Reachable (guarded cache gw table perBackendConcurrency) w)
    (hnodup : (w.tasks.map Prod.fst).Nodup) {backendId : Uuid}
    {calling : List (Nat × Program Op Reply Outcome)} (hsub : calling.Sublist w.tasks)
    (hcalling : ∀ task ∈ calling, CallsFor w backendId task) :
    calling.length ≤ callsInFlight w backendId := by
  have hholds : calling.countP (fun task => held (Pool.own task.1 w.history) = some backendId) =
      calling.length := by
    apply List.countP_eq_length.mpr
    intro task htask
    exact decide_eq_true (CallsFor.held h hnodup (hsub.subset htask) (hcalling task htask))
  rw [← hholds]
  exact hsub.countP_le

end Runs

/-- The calls of a backend keep to the slots of its semaphore. -/
structure CallsBounded (perBackendConcurrency : Nat) (w : Pool Nat Guarded Op Reply Outcome)
    (backendId : Uuid) : Prop where
  inFlight : callsInFlight w backendId ≤ perBackendConcurrency
  /-- No slot is lost. -/
  slots : freeSlots perBackendConcurrency w.state backendId + callsInFlight w backendId =
    perBackendConcurrency
  calling : ∀ calling : List (Nat × Program Op Reply Outcome), calling.Sublist w.tasks →
    (∀ task ∈ calling, CallsFor w backendId task) → calling.length ≤ perBackendConcurrency
  /-- A client is only used with a slot of a backend that it has been offered for. -/
  guarded : ∀ tag op next client, (tag, .perform op next) ∈ w.tasks → op.Uses client →
    ∃ backend, Offered (Pool.own tag w.history) backend client ∧
      held (Pool.own tag w.history) = some backend.id
  /-- With a slot a task does nothing but call, and leaves at once if anything has raised. -/
  inside : ∀ tag op next, (tag, .perform op next) ∈ w.tasks →
    held (Pool.own tag w.history) = some backendId → WhileHeld backendId op ∧
      ∀ earlier op' e, Pool.own tag w.history = earlier ++ [⟨op', .error e⟩] →
        op = .release backendId
  finished : ∀ tag outcome, (tag, .pure outcome) ∈ w.tasks →
    held (Pool.own tag w.history) = none

/-- In every run at most so many calls of a backend are in flight as its semaphore has slots,
and a call that has finished or failed has given its slot back. -/
theorem concurrency_bounded (cache : TwoTierCache) (gw : RequestOrchestrator)
    (table : List Backend) (perBackendConcurrency : Nat) {w : Pool Nat Guarded Op Reply Outcome}
    (hreach : Pool.Reachable (guarded cache gw table perBackendConcurrency) w)
    (hnodup : (w.tasks.map Prod.fst).Nodup) (backendId : Uuid) :
    CallsBounded perBackendConcurrency w backendId := by
  have hslots := freeSlots_add hreach hnodup backendId
  have hbound : callsInFlight w backendId ≤ perBackendConcurrency := by omega
  refine ⟨hbound, hslots, ?_, ?_, ?_, ?_⟩
  · intro calling hsub hcalling
    exact (length_le_callsInFlight hreach hnodup hsub hcalling).trans hbound
  · intro tag op next client htask huses
    exact (slotOrder_next hreach hnodup htask (.error .cancelled)).calling client huses
  · intro tag op next htask hheld
    have horder := slotOrder_next hreach hnodup htask (.error .cancelled)
    exact ⟨horder.inside backendId hheld, fun earlier op' e => horder.failed _ _ _ _ hheld⟩
  · intro tag outcome htask
    obtain ⟨p, ⟨purpose, hstart⟩, hfollows⟩ := hreach.follows hnodup _ htask
    exact (hfollows.ended hstart.slotOrder fun _ _ => trivial).2

/-! ## Two requests, one slot and a reload -/

/-- How the gateway answers, with one new client a reload. -/
def answerGuarded (perBackendConcurrency : Nat) : Program.Handler Op Reply Guarded := fun s op =>
  match op with
  | .acquire backendId =>
    let (free, made) := semaphoreFor perBackendConcurrency s.semaphores backendId
    if 0 < free then
      (.ok (), { s with semaphores := Function.update made backendId (some (free - 1)) })
    else (.error .cancelled, { s with semaphores := made })
  | .release backendId =>
    let (free, made) := semaphoreFor perBackendConcurrency s.semaphores backendId
    (.ok (), { s with semaphores := Function.update made backendId (some (free + 1)) })
  | op => ((answerOnce s.running op).1, { s with running := (answerOnce s.running op).2 })

theorem answerGuarded_handle (cache : TwoTierCache) (gw : RequestOrchestrator)
    (table : List Backend) (perBackendConcurrency : Nat) (s : Guarded) (op : Op) :
    (guarded cache gw table perBackendConcurrency).handle s op
      (answerGuarded perBackendConcurrency s op).1
      (answerGuarded perBackendConcurrency s op).2 := by
  cases op with
  | acquire backendId =>
    by_cases hfree : 0 < (semaphoreFor perBackendConcurrency s.semaphores backendId).1
    · have hanswer : answerGuarded perBackendConcurrency s (.acquire backendId) = (.ok (), _) :=
        if_pos hfree
      rw [hanswer]
      exact ⟨⟨rfl, le_rfl, trivial⟩, .inl ⟨hfree, rfl, rfl⟩⟩
    · have hanswer : answerGuarded perBackendConcurrency s (.acquire backendId) =
          (.error .cancelled, _) := if_neg hfree
      rw [hanswer]
      exact ⟨⟨rfl, le_rfl, trivial⟩, .inr ⟨rfl, _, rfl⟩⟩
  | release => exact ⟨⟨rfl, le_rfl, trivial⟩, rfl⟩
  | _ => exact ⟨answerOnce_handle cache gw table s.running _, rfl⟩

/-- A reload, two requests and another reload have started. -/
def fourTasks : Pool Nat Guarded Op Reply Outcome where
  state := ⟨⟨⟨Strings.empty, [], flaky, {}⟩, 0⟩, fun _ => none⟩
  history := []
  tasks := [(0, (fun _ => .administered) <$> reload.run),
    (1, Outcome.completed <$> (handleComplete zeroDigest hiRequest).run),
    (2, Outcome.streamed <$> (handleStream zeroDigest hiRequest).run),
    (3, (fun _ => .administered) <$> reload.run)]

theorem fourTasks_start : ∀ task ∈ fourTasks.tasks,
    (guarded sampleCache zeroDigest flaky 1).starts task.1 task.2 := by
  simp only [fourTasks, List.forall_mem_cons]
  exact ⟨⟨_, .reload⟩, ⟨_, .complete hiRequest⟩, ⟨_, .stream hiRequest⟩, ⟨_, .reload⟩, nofun⟩

/-- The first request is about to call the backend, and the second one has to wait, also
after another reload. -/
theorem concurrency_bounded_shared :
    let w := fourTasks.schedule (answerGuarded 1)
      [0, 0, 0, 0, 1, 1, 1, 1, 1, 1, 1, 1, 2, 2, 2, 2, 2, 2, 2, 3, 3, 3]
    callsInFlight w 0 = 1 ∧ freeSlots 1 w.state 0 = 0 ∧ CallsBounded 1 w 0 := by
  intro w
  have hrun : (w.tasks.map Prod.fst).Nodup ∧ callsInFlight w 0 = 1 ∧ freeSlots 1 w.state 0 = 0 := by
    unfold w fourTasks handleComplete handleStream
    rw [walk_evaluates]
    decide +kernel
  have hreach : Pool.Reachable (guarded sampleCache zeroDigest flaky 1) w :=
    .schedule (answerGuarded_handle _ _ _ _) (.starts .initial fourTasks_start) _
  exact ⟨hrun.2.1, hrun.2.2, concurrency_bounded sampleCache zeroDigest flaky 1 hreach hrun.1 0⟩

end InferenceGateway.Orchestrator
