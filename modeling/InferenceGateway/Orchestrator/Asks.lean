import InferenceGateway.Orchestrator.Books
import InferenceGateway.Orchestrator.HotReload

/-!
# Who asks for what

Each tag of a pool stands for one caller, who asks for one thing. Then a result in the pool
is the result of a known request, and the events of its tag are the account of that request.
-/
namespace InferenceGateway.Orchestrator
open Library Library.Action Backends Cache Persistence Redis

variable {α : Type}

/-- What a caller asks of the gateway. -/
inductive Ask where
  | complete (req : ChatRequest)
  | stream (req : ChatRequest)
  | upsert (body : BackendUpsert)
  | reload

namespace Ask

def program (gw : RequestOrchestrator) : Ask → Program Op Reply Outcome
  | complete req => Outcome.completed <$> (handleComplete gw req).run
  | stream req => Outcome.streamed <$> (handleStream gw req).run
  | upsert body => (fun _ => .administered) <$> (upsertBackend body).run
  | reload => (fun _ => .administered) <$> Orchestrator.reload.run

/-- The chat request, through either handler. -/
def request? : Ask → Option ChatRequest
  | complete req | stream req => some req
  | _ => none

theorem starts (gw : RequestOrchestrator) (ask : Ask) :
    ∃ purpose, Starts gw purpose (ask.program gw) := by
  cases ask with
  | complete req => exact ⟨_, .complete req⟩
  | stream req => exact ⟨_, .stream req⟩
  | upsert body => exact ⟨_, .upsert body⟩
  | reload => exact ⟨_, .reload⟩

end Ask

/-- The gateway under reloads, for callers who ask for these things. -/
def askedOf (cache : TwoTierCache) (gw : RequestOrchestrator) (table : List Backend)
    (asks : Nat → Ask) : Pool.System Nat Running Op Reply Outcome :=
  { hotReload cache gw table with starts := fun tag p => p = (asks tag).program gw }

/-- A caller has been given this result: it is returned, or yielded to them. -/
def Yields (asks : Nat → Ask) (w : Pool Nat Running Op Reply Outcome) (tag : Nat)
    (result : CompletionResult) : Prop :=
  match asks tag with
  | .complete _ => (tag, .pure (.completed (.ok result))) ∈ w.tasks
  | .stream _ => ∃ reply, (tag, ⟨.emit (.result result), reply⟩) ∈ w.history
  | _ => False

section Results
variable {cache : TwoTierCache} {gw : RequestOrchestrator} {table : List Backend}
  {asks : Nat → Ask} {w : Pool Nat Running Op Reply Outcome} {tag : Nat} {req : ChatRequest}
  {result : CompletionResult}

theorem reachable_hotReload (h : Pool.Reachable (askedOf cache gw table asks) w) :
    Pool.Reachable (hotReload cache gw table) w := by
  induction h with
  | initial => exact .initial
  | start h hstart ih =>
    obtain rfl := hstart
    exact .start ih (Ask.starts gw _)
  | perform h hhandle ih => exact .perform ih hhandle
  | drift h hdrift ih => exact .drift ih hdrift

/-- The task of a tag has followed what its caller asks for. -/
theorem follows_ask (h : Pool.Reachable (askedOf cache gw table asks) w)
    (hnodup : (w.tasks.map Prod.fst).Nodup) {p : Program Op Reply Outcome}
    (htask : (tag, p) ∈ w.tasks) :
    ((asks tag).program gw).Follows (Pool.own tag w.history) p := by
  obtain ⟨_, rfl, hfollows⟩ := h.follows hnodup _ htask
  exact hfollows

theorem books_of_complete :
    Program.wp anyReply ((Ask.complete req).program gw) fun trace outcome =>
      ∃ r, outcome = .completed r ∧ RequestBooks returning gw req trace r :=
  (Program.wp_map _ _).mpr (Program.wp_mono handleComplete_books fun _ r hr => ⟨r, rfl, hr⟩)

theorem books_of_stream :
    Program.wp anyReply ((Ask.stream req).program gw) fun trace outcome =>
      ∃ r, outcome = .streamed r ∧ RequestBooks yielding gw req trace r :=
  (Program.wp_map _ _).mpr (Program.wp_mono handleStream_books fun _ r hr => ⟨r, rfl, hr⟩)

theorem Account.yielded_not_mem {shown : List BookEntry} (h : Account gw req shown result)
    (result' : CompletionResult) : .yielded result' ∉ shown := by
  cases h with
  | hit => simp
  | live h =>
    obtain ⟨backend, client, content, tokensIn, tokensOut, finishReason, calls, settled, -,
      hcalls, -, ⟨writes, latency, hwrites, rfl⟩, rfl, -⟩ := h
    have hnone : .yielded result' ∉ calls := fun hmem => by simpa using hcalls _ hmem
    cases hwrites <;> simp [hnone]

/-- What ends in an element that occurs only there has it in no shorter part. -/
theorem eq_concat_of_append {l l' shown : List α} {a : α} (h : l ++ l' = shown ++ [a])
    (hmem : a ∈ l) (hnot : a ∉ shown) : l = shown ++ [a] := by
  obtain rfl | ⟨l', b, rfl⟩ := List.eq_nil_or_concat' l'
  · simpa using h
  · rw [← List.append_assoc] at h
    obtain ⟨rfl, -⟩ := List.append_inj' h rfl
    exact absurd (List.mem_append_left _ hmem) hnot

/-- The entries of a caller's events before the result is handed over. -/
def shownTo (asks : Nat → Ask) (tag : Nat) (result : CompletionResult) (shown : List BookEntry) :
    List BookEntry :=
  match asks tag with
  | .stream _ => shown ++ [.yielded result]
  | _ => shown

theorem mem_shownTo {shown : List BookEntry} {entry : BookEntry}
    (hentry : ∀ result, entry ≠ .yielded result) :
    entry ∈ shownTo asks tag result shown ↔ entry ∈ shown := by
  unfold shownTo
  split
  · rw [List.mem_append, List.mem_singleton]
    exact or_iff_left (hentry result)
  · exact Iff.rfl

/-- A caller's events are the account of the result. -/
theorem account_of_yields (h : Pool.Reachable (askedOf cache gw table asks) w)
    (hnodup : (w.tasks.map Prod.fst).Nodup) (hask : (asks tag).request? = some req)
    (hyields : Yields asks w tag result) :
    ∃ shown, books (Pool.own tag w.history) = shownTo asks tag result shown ∧
      Account gw req shown result := by
  unfold Yields at hyields
  unfold shownTo
  cases hcase : asks tag with
  | upsert | reload => simp [hcase, Ask.request?] at hask
  | complete req' =>
    obtain rfl : req' = req := by simpa [hcase, Ask.request?] using hask
    rw [hcase] at hyields
    have hfollows := follows_ask h hnodup hyields
    rw [hcase] at hfollows
    obtain ⟨r, hr, hbooks⟩ := hfollows.ended books_of_complete fun _ _ => trivial
    obtain ⟨shown, hshown, haccount⟩ := hbooks.account result (Outcome.completed.inj hr).symm
    exact ⟨shown, by simpa [returning] using hshown, haccount⟩
  | stream req' =>
    obtain rfl : req' = req := by simpa [hcase, Ask.request?] using hask
    rw [hcase] at hyields
    obtain ⟨reply, hmem⟩ := hyields
    obtain ⟨p, htask⟩ : ∃ p, (tag, p) ∈ w.tasks := by
      obtain ⟨⟨_, p⟩, htask, rfl⟩ := List.mem_map.mp (h.mem_tags _ hmem)
      exact ⟨p, htask⟩
    have hfollows := follows_ask h hnodup htask
    rw [hcase] at hfollows
    obtain ⟨rest, _, r, -, hr⟩ := hfollows.exists_end books_of_stream (fun _ _ => trivial)
      fun op => ⟨.error .cancelled, trivial⟩
    have hyielded : .yielded result ∈ books (Pool.own tag w.history) :=
      yielded_mem_books.mpr ⟨reply, Pool.mem_own.mpr hmem⟩
    have hlater : .yielded result ∈ books (Pool.own tag w.history ++ rest) := by
      rw [books_append]
      exact List.mem_append_left _ hyielded
    obtain ⟨shown, hshown, haccount⟩ := hr.account result hlater
    rw [books_append] at hshown
    exact ⟨shown, eq_concat_of_append hshown hyielded (haccount.yielded_not_mem _), haccount⟩

/-- A request that has found something in the cache has ended with a result, unless one of
its operations has raised. -/
theorem yields_of_found (h : Pool.Reachable (askedOf cache gw table asks) w)
    (hnodup : (w.tasks.map Prod.fst).Nodup) (hask : (asks tag).request? = some req)
    {outcome : Outcome} (htask : (tag, .pure outcome) ∈ w.tasks) {hit : CacheHit}
    (hfound : .found hit ∈ books (Pool.own tag w.history)) :
    (∃ result, Yields asks w tag result) ∨ HasRaised (Pool.own tag w.history) := by
  have hfollows := follows_ask h hnodup htask
  cases hcase : asks tag with
  | upsert | reload => simp [hcase, Ask.request?] at hask
  | complete req' =>
    rw [hcase] at hfollows
    obtain ⟨r, rfl, hr⟩ := hfollows.ended books_of_complete fun _ _ => trivial
    obtain ⟨result, hresult⟩ | hraised := hr.answered hit hfound
    · refine .inl ⟨result, ?_⟩
      rw [Yields, hcase]
      rwa [show r = .ok result from hresult] at htask
    · exact .inr hraised
  | stream req' =>
    rw [hcase] at hfollows
    obtain ⟨r, rfl, hr⟩ := hfollows.ended books_of_stream fun _ _ => trivial
    obtain ⟨result, hresult⟩ | hraised := hr.answered hit hfound
    · obtain ⟨reply, hmem⟩ := yielded_mem_books.mp hresult
      refine .inl ⟨result, ?_⟩
      rw [Yields, hcase]
      exact ⟨reply, Pool.mem_own.mp hmem⟩
    · exact .inr hraised

end Results

end InferenceGateway.Orchestrator
