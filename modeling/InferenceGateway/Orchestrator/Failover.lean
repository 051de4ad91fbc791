import InferenceGateway.Orchestrator.Bookkeeping
import InferenceGateway.Routing.Policies
import Mathlib.Data.List.Perm.Subperm

/-!
# The failover walk

A handler tries candidates one after the other. A `Protocol` says what can come of one
that its breaker admits: what is seen, whether it ends the walk and with what, and which
error it leaves behind otherwise. `Walked` says that a walk is a list of attempts, no
candidate twice, that ends with the first attempt that ends it or when all candidates
have been tried.
-/
namespace InferenceGateway.Orchestrator
open Library Library.Action

/-- What can come of a candidate that its breaker admits. -/
structure Protocol (Verdict α : Type) where
  after : Backend → Client → Verdict → List Observation
  ends : Backend → Verdict → Option (Except Raised α)
  next : Verdict → Option Raised
  valid : Verdict → Prop

/-- One pass through the loop. Without a verdict the breaker has refused. -/
structure Attempt (Verdict : Type) where
  backend : Backend
  client : Client
  verdict : Option Verdict

def Attempt.pair {Verdict : Type} (a : Attempt Verdict) : Backend × Client := (a.backend, a.client)

variable {Verdict α : Type} (P : Protocol Verdict α)

namespace Protocol

def shown (a : Attempt Verdict) : List Observation :=
  match a.verdict with
  | none => [.selected a.backend, .allowed a.backend.id false]
  | some verdict => .selected a.backend :: .allowed a.backend.id true ::
      P.after a.backend a.client verdict

def outcome (a : Attempt Verdict) : Option (Except Raised α) := a.verdict.bind (P.ends a.backend)

def error (err : Option Raised) (a : Attempt Verdict) : Option Raised :=
  match a.verdict with
  | none => err
  | some verdict => P.next verdict

/-- The attempt went as the protocol allows. -/
def Valid (a : Attempt Verdict) : Prop := ∀ verdict ∈ a.verdict, P.valid verdict

end Protocol

def ids (remaining : List (Backend × Client)) : List Uuid := remaining.map fun pair => pair.1.id

/-- The attempts of a walk over the remaining candidates, what is seen of it and how it
ends. -/
structure Walked (remaining : List (Backend × Client)) (err : Option Raised)
    (shown : List Observation) (result : Except Raised α) (attempts : List (Attempt Verdict)) :
    Prop where
  shown_eq : shown = attempts.flatMap P.shown
  valid : ∀ a ∈ attempts, P.Valid a
  offered : ∀ a ∈ attempts, a.pair ∈ remaining
  once : (ids (attempts.map Attempt.pair)).Nodup
  ending :
    (∃ before a, attempts = before ++ [a] ∧ (∀ b ∈ before, P.outcome b = none) ∧
      P.outcome a = some result) ∨
    ((∀ a ∈ attempts, P.outcome a = none) ∧ (attempts.map Attempt.pair).Perm remaining ∧
      result = .error (.allBackendsUnavailable (attempts.foldl P.error err)))

section Choice
variable {remaining : List (Backend × Client)} {chosen : Uuid} {pair : Backend × Client}

theorem pairOf_mem (h : pairOf chosen remaining = some pair) :
    pair ∈ remaining ∧ pair.1.id = chosen :=
  ⟨List.mem_of_find?_eq_some h, by simpa using List.find?_some h⟩

/-- With distinct ids, taking out the chosen id takes out the chosen pair and no other. -/
theorem perm_without (hids : (ids remaining).Nodup) (h : pairOf chosen remaining = some pair) :
    (pair :: without chosen remaining).Perm remaining := by
  obtain ⟨hmem, hid⟩ := pairOf_mem h
  have hnodup : remaining.Nodup := hids.of_map _
  refine (List.perm_ext_iff_of_nodup ?_ hnodup).mpr fun q => ?_
  · refine List.nodup_cons.mpr ⟨fun hin => ?_, hnodup.filter _⟩
    simpa [hid] using (List.mem_filter.mp hin).2
  · rw [List.mem_cons, without, List.mem_filter]
    constructor
    · rintro (rfl | ⟨hq, -⟩)
      · exact hmem
      · exact hq
    · intro hq
      by_cases heq : q.1.id = chosen
      · exact .inl (List.inj_on_of_nodup_map hids hq hmem (heq.trans hid.symm))
      · exact .inr ⟨hq, by simpa using heq⟩

theorem nodup_without (hids : (ids remaining).Nodup) (chosen : Uuid) :
    (ids (without chosen remaining)).Nodup :=
  hids.sublist (List.filter_sublist.map _)

/-- The pair of a chosen member is that member with its client. -/
theorem pairOf_eq (hids : (ids remaining).Nodup) {backend : Backend}
    (hmem : backend ∈ remaining.map Prod.fst) :
    ∃ client, pairOf backend.id remaining = some (backend, client) := by
  obtain ⟨⟨b, client⟩, hin, heq⟩ := List.mem_map.mp hmem
  obtain rfl : b = backend := heq
  have hsome : (pairOf b.id remaining).isSome :=
    List.find?_isSome.mpr ⟨_, hin, by simp⟩
  obtain ⟨pair, hpair⟩ := Option.isSome_iff_exists.mp hsome
  obtain ⟨hmem', hid⟩ := pairOf_mem hpair
  exact ⟨client, hpair.trans (congrArg some (List.inj_on_of_nodup_map hids hmem' hin hid))⟩

/-- The pair of a member is that member with its client. -/
theorem eq_of_pairOf (hids : (ids remaining).Nodup) {member backend : Backend} {client : Client}
    (hmem : member ∈ remaining.map Prod.fst)
    (hpair : pairOf member.id remaining = some (backend, client)) : member = backend := by
  obtain ⟨client', hpair'⟩ := pairOf_eq hids hmem
  rw [hpair] at hpair'
  exact (congrArg Prod.fst (Option.some.inj hpair')).symm

end Choice

namespace Walked
variable {P} {remaining : List (Backend × Client)} {err : Option Raised}
  {shown : List Observation} {result : Except Raised α} {attempts : List (Attempt Verdict)}
  {a : Attempt Verdict}

theorem exhausted (err : Option Raised) :
    Walked P [] err [] (.error (.allBackendsUnavailable err)) [] :=
  ⟨rfl, by simp, by simp, by simp [ids], .inr ⟨by simp, .refl _, rfl⟩⟩

/-- The walk ends with its first attempt. -/
theorem single (hoffered : a.pair ∈ remaining) (hvalid : P.Valid a)
    (hends : P.outcome a = some result) : Walked P remaining err (P.shown a) result [a] :=
  ⟨by simp, by simpa using hvalid, by simpa using hoffered, by simp [ids],
    .inl ⟨[], a, rfl, by simp, hends⟩⟩

/-- The walk goes on without the candidate it has tried. -/
theorem cons {chosen : Uuid} (hids : (ids remaining).Nodup)
    (hpair : pairOf chosen remaining = some a.pair) (hvalid : P.Valid a)
    (hends : P.outcome a = none)
    (h : Walked P (without chosen remaining) (P.error err a) shown result attempts) :
    Walked P remaining err (P.shown a ++ shown) result (a :: attempts) where
  shown_eq := by rw [List.flatMap_cons, h.shown_eq]
  valid b hb := by
    obtain rfl | hold := List.mem_cons.mp hb
    · exact hvalid
    · exact h.valid b hold
  offered b hb := by
    obtain rfl | hold := List.mem_cons.mp hb
    · exact (pairOf_mem hpair).1
    · exact (List.mem_filter.mp (h.offered b hold)).1
  once := by
    refine List.nodup_cons.mpr ⟨fun hin => ?_, h.once⟩
    obtain ⟨q, hq, hid⟩ := List.mem_map.mp hin
    obtain ⟨b, hb, rfl⟩ := List.mem_map.mp hq
    have hne := (List.mem_filter.mp (h.offered b hb)).2
    exact absurd (hid.trans (pairOf_mem hpair).2) (by simpa using hne)
  ending := by
    obtain ⟨before, last, rfl, hbefore, hlast⟩ | ⟨hnone, hperm, hresult⟩ := h.ending
    · refine .inl ⟨a :: before, last, rfl, fun b hb => ?_, hlast⟩
      obtain rfl | hold := List.mem_cons.mp hb
      · exact hends
      · exact hbefore b hold
    · refine .inr ⟨fun b hb => ?_, (hperm.cons _).trans (perm_without hids hpair), hresult⟩
      obtain rfl | hold := List.mem_cons.mp hb
      · exact hends
      · exact hnone b hold

/-- No more passes through the loop than candidates. -/
theorem length_le (h : Walked P remaining err shown result attempts) :
    attempts.length ≤ remaining.length := by
  have hnodup : (attempts.map Attempt.pair).Nodup := h.once.of_map _
  have hsub : attempts.map Attempt.pair ⊆ remaining := fun q hq => by
    obtain ⟨b, hb, rfl⟩ := List.mem_map.mp hq
    exact h.offered b hb
  simpa using (List.subperm_of_subset hnodup hsub).length_le

end Walked

/-- The body of the loop does with every admitted candidate what the protocol says. -/
def Follows (env : Surroundings) (body : Backend → Client → Action (Pass α)) : Prop :=
  ∀ backend client, Sees env (body backend client) fun shown r =>
    ∃ verdict, P.valid verdict ∧ shown = P.after backend client verdict ∧
      match r with
      | .error e => P.ends backend verdict = some (.error e)
      | .ok (.done a) => P.ends backend verdict = some (.ok a)
      | .ok (.next err') => P.ends backend verdict = none ∧ P.next verdict = err'

variable {P} {env : Surroundings}

/-- With a policy that returns members the loop walks the protocol that its body follows. -/
theorem walk_walked {req : ChatRequest} {stopped : Raised}
    {body : Backend → Client → Action (Pass α)} {exhausted : Option Raised → Action α}
    (hmember : ∀ offered reply, offered ≠ [] → env.choice offered reply →
      ∃ chosen ∈ offered, reply = .ok chosen)
    (hbody : Follows P env body)
    (hexhausted : ∀ err, Sees env (exhausted err) fun shown r =>
      shown = [] ∧ r = .error (.allBackendsUnavailable err))
    {remaining : List (Backend × Client)} (hids : (ids remaining).Nodup) (err : Option Raised) :
    Sees env (walk req stopped body exhausted remaining err) fun shown r =>
      ∃ attempts, Walked P remaining err shown r attempts := by
  suffices h : WalkRule (ordinary env) req stopped body exhausted
      (fun remaining _ => (ids remaining).Nodup) (fun remaining err trace r =>
        ∃ attempts, Walked P remaining err (trace.filterMap seen) r attempts) from h.wp_walk hids
  have hchosen : ∀ {rem : List (Backend × Client)} {chosen backend : Backend} {client : Client},
      (ids rem).Nodup → env.choice (rem.map Prod.fst) (.ok chosen) →
      pairOf chosen.id rem = some (backend, client) → chosen = backend := by
    intro rem chosen backend client hids hreply hpair
    have hrem : rem.map Prod.fst ≠ [] := fun hnil => by
      simp [List.map_eq_nil_iff.mp hnil, pairOf] at hpair
    obtain ⟨b, hb, heq⟩ := hmember _ _ hrem hreply
    obtain rfl := Except.ok.inj heq
    exact eq_of_pairOf hids hb hpair
  refine ⟨fun _ _ => trivial, ?_, ?_, fun _ _ => trivial, ?_, ?_, ?_, ?_⟩
  · intro rem err e _ hrem hreply
    obtain ⟨_, _, heq⟩ := hmember _ _ (by simpa using hrem) hreply
    exact absurd heq (by simp)
  · intro rem err chosen hids hrem hreply hnone
    obtain ⟨b, hb, heq⟩ := hmember _ _ (by simpa using hrem) hreply
    obtain rfl := Except.ok.inj heq
    obtain ⟨client, hpair⟩ := pairOf_eq hids hb
    exact absurd (hnone.symm.trans hpair) (by simp)
  · rintro rem err chosen backend client e _ _ ⟨_, heq⟩
    exact absurd heq (by simp)
  · intro rem err chosen backend client hids hreply hpair _
    obtain rfl := hchosen hids hreply hpair
    refine ⟨nodup_without hids _, ?_⟩
    rintro trace r ⟨attempts, hwalked⟩
    exact ⟨_, Walked.cons (a := ⟨chosen, client, none⟩) hids hpair (by simp [Protocol.Valid]) rfl
      hwalked⟩
  · intro rem err chosen backend client hids hreply hpair _
    obtain rfl := hchosen hids hreply hpair
    have hoffered := (pairOf_mem hpair).1
    refine wp_mono (hbody chosen client) ?_
    rintro trace r ⟨verdict, hvalid, hafter, hr⟩
    have hsome : P.Valid ⟨chosen, client, some verdict⟩ := by simpa [Protocol.Valid] using hvalid
    have hsingle : ∀ {result : Except Raised α}, P.ends chosen verdict = some result →
        ∃ attempts, Walked P rem err (.selected chosen :: .allowed chosen.id true ::
          trace.filterMap seen) result attempts := fun {result} hends => by
      rw [hafter]
      exact ⟨_, Walked.single (a := ⟨chosen, client, some verdict⟩) hoffered hsome hends⟩
    cases r with
    | error e => exact hsingle hr
    | ok pass =>
      cases pass with
      | done a => exact hsingle hr
      | next err' =>
        obtain ⟨hends, rfl⟩ := hr
        refine ⟨nodup_without hids _, ?_⟩
        rintro trace' r' ⟨attempts, hwalked⟩
        refine ⟨⟨chosen, client, some verdict⟩ :: attempts, ?_⟩
        have hcons : Walked P rem err _ r' _ :=
          Walked.cons (a := ⟨chosen, client, some verdict⟩) hids hpair hsome hends hwalked
        have hshown : P.shown ⟨chosen, client, some verdict⟩ =
            .selected chosen :: .allowed chosen.id true :: trace.filterMap seen := by
          rw [hafter]
          rfl
        rw [hshown] at hcons
        simpa [seen, List.filterMap_append] using hcons
  · intro err _
    refine wp_mono (hexhausted err) ?_
    rintro trace r ⟨hshown, rfl⟩
    rw [hshown]
    exact ⟨[], Walked.exhausted err⟩

end InferenceGateway.Orchestrator
