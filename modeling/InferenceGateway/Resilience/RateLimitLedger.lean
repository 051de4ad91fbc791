import InferenceGateway.Resilience.RateLimitLog

/-!
# The ledger of reservations

The ledger is what the callers know: every reservation that was admitted, when, and what
it costs by now. Nothing is ever trimmed from it. It is computed from the history of
calls and replies, and the results about the limiter compare it with what Redis stores.
-/
namespace InferenceGateway.Resilience.RateLimit
open Library Redis WindowLog

/-- An admitted reservation with its latest stamp and its current cost: the estimate, or
the actual tokens once it has been reconciled. -/
structure Reservation where
  admittedAt : Time
  charge : Charge ReservationId Time Int
  deriving DecidableEq, Repr

def Reservation.reconciled (x : Reservation) (id : ReservationId) (stamp : Time)
    (actual : Int) : Reservation :=
  if x.charge.id = id then { x with charge := ⟨id, stamp, actual⟩ } else x

/-- Enter one event. -/
def book (ledger : List Reservation) (e : Event) : List Reservation :=
  match e.1.call with
  | .reserve id est =>
    if e.2 = .admitted then ledger ++ [⟨e.1.served, ⟨id, e.1.clock, est⟩⟩] else ledger
  | .reconcile id actual => ledger.map fun x => x.reconciled id e.1.clock actual

def ledger (past : List Event) : List Reservation := past.foldl book []

def charges (ledger : List Reservation) : Log := ledger.map Reservation.charge

@[simp] theorem ledger_nil : ledger [] = [] := rfl

@[simp] theorem ledger_concat (past : List Event) (e : Event) :
    ledger (past ++ [e]) = book (ledger past) e := by
  simp [ledger]

@[simp] theorem charges_nil : charges [] = [] := rfl

section Book
variable (l : List Reservation) (served clock : Time) (id : ReservationId) (n : Int)

theorem book_admitted :
    book l (⟨served, clock, .reserve id n⟩, .admitted) = l ++ [⟨served, ⟨id, clock, n⟩⟩] := rfl

theorem book_refused {reply : Reply} (h : reply ≠ .admitted) :
    book l (⟨served, clock, .reserve id n⟩, reply) = l := if_neg h

theorem book_reconcile (reply : Reply) :
    book l (⟨served, clock, .reconcile id n⟩, reply) =
      l.map fun x => x.reconciled id clock n := rfl

@[simp] theorem charges_append (l l' : List Reservation) :
    charges (l ++ l') = charges l ++ charges l' := List.map_append

/-- On the charges a reconcile settles, wherever Redis found the reservation or not. -/
theorem charges_reconciled :
    charges (l.map fun x => x.reconciled id clock n) = settle id clock n (charges l) := by
  simp only [charges, settle, List.map_map]
  refine List.map_congr_left fun x _ => ?_
  simp only [Function.comp_apply, Reservation.reconciled]
  split <;> rfl

end Book

/-- Calls reach Redis in time order and no reservation id is drawn twice. -/
structure Orderly (past : List Event) (r : Request) : Prop where
  served : ∀ e ∈ past, e.1.served ≤ r.served
  fresh : ∀ id, r.drawn = some id → ∀ e ∈ past, e.1.drawn ≠ some id

instance (past : List Event) (r : Request) : Decidable (Orderly past r) :=
  decidable_of_iff ((∀ e ∈ past, e.1.served ≤ r.served) ∧
      ∀ id ∈ r.drawn, ∀ e ∈ past, e.1.drawn ≠ some id)
    ⟨fun h => ⟨h.1, h.2⟩, fun h => ⟨h.served, h.fresh⟩⟩

/-- Every reservation in the ledger was drawn by a reserve call, once. -/
structure Entered (past : List Event) : Prop where
  nodup : (ids (charges (ledger past))).Nodup
  drawn : ∀ id ∈ ids (charges (ledger past)), ∃ e ∈ past, e.1.drawn = some id

namespace Entered

variable {past : List Event} {r : Request}

theorem nil : Entered [] := ⟨List.nodup_nil, by simp [ids]⟩

theorem not_mem (h : Entered past) (hr : Orderly past r) {id : ReservationId}
    (hid : r.drawn = some id) : id ∉ ids (charges (ledger past)) := fun hmem =>
  have ⟨e, he, hdrawn⟩ := h.drawn id hmem
  hr.fresh id hid e he hdrawn

theorem concat (h : Entered past) (hr : Orderly past r) (reply : Reply) :
    Entered (past ++ [(r, reply)]) := by
  have hdrawn : ∀ id ∈ ids (charges (ledger past)),
      ∃ e ∈ past ++ [(r, reply)], e.1.drawn = some id := fun id hid =>
    have ⟨e, he, hd⟩ := h.drawn id hid
    ⟨e, List.mem_append_left _ he, hd⟩
  obtain ⟨served, clock, call⟩ := r
  cases call with
  | reserve id est =>
    by_cases hreply : reply = .admitted
    · subst hreply
      have hnew : id ∉ ids (charges (ledger past)) := h.not_mem hr rfl
      have hids : ids (charges (ledger (past ++ [(⟨served, clock, .reserve id est⟩, .admitted)])))
          = ids (charges (ledger past)) ++ [id] := by
        rw [ledger_concat, book_admitted, charges_append, ids_append]
        rfl
      constructor
      · rw [hids]
        exact h.nodup.append (List.nodup_singleton _) (List.disjoint_singleton.mpr hnew)
      · rw [hids]
        intro id' hid'
        obtain hold | hlast := List.mem_append.mp hid'
        · exact hdrawn id' hold
        · obtain rfl := List.mem_singleton.mp hlast
          exact ⟨_, List.mem_append_right _ (List.mem_singleton_self _), rfl⟩
    · constructor <;> rw [ledger_concat, book_refused _ _ _ _ _ hreply]
      · exact h.nodup
      · exact hdrawn
  | reconcile id actual =>
    constructor <;> rw [ledger_concat, book_reconcile, charges_reconciled, ids_settle]
    · exact h.nodup
    · exact hdrawn

end Entered

end InferenceGateway.Resilience.RateLimit
