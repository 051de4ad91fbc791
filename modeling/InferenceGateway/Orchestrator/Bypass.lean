import InferenceGateway.Library.Execution
import InferenceGateway.Orchestrator.Bookkeeping
import InferenceGateway.Orchestrator.Traces
import InferenceGateway.Orchestrator.World

/-!
# Bypassing the cache

A request with `bypass_cache` performs no operation on either cache tier. So it leaves
both as they are, and nothing that it does depends on them.
-/
namespace InferenceGateway.Orchestrator
open Library Library.Action Cache Redis

/-- The contents of both cache tiers. -/
structure CacheTiers where
  l1 : Strings Payload
  entries : List CacheEntry

variable {α Rest : Type}

/-- The action leaves both tiers as they are, and its operations, its result and what it
does to the rest of the state do not depend on them. -/
structure Firewalled (world : Program.Handler Op Reply (CacheTiers × Rest)) (x : Action α) :
    Prop where
  unwritten : ∀ tiers rest, (x.exec world (tiers, rest)).2.1 = tiers
  unread : ∀ tiers tiers' rest,
    Program.trace world x.run (tiers', rest) = Program.trace world x.run (tiers, rest) ∧
    (x.exec world (tiers', rest)).1 = (x.exec world (tiers, rest)).1 ∧
    (x.exec world (tiers', rest)).2.2 = (x.exec world (tiers, rest)).2.2

/-- An action that avoids the cache is firewalled, whatever the cache operations do. -/
theorem Firewalled.of_avoids {x : Action α} (h : Program.Avoids Op.touchesCache x.run)
    (caches : Program.Handler Op Reply (CacheTiers × Rest))
    (others : Program.Handler Op Reply Rest) :
    Firewalled (Program.beside Op.touchesCache caches others) x := by
  have hexec : ∀ tiers rest, x.exec (Program.beside Op.touchesCache caches others) (tiers, rest) =
      ((x.exec others rest).1, (tiers, (x.exec others rest).2)) := fun tiers rest =>
    (h.exec_beside tiers rest).1
  refine ⟨fun tiers rest => by rw [hexec], fun tiers tiers' rest => ⟨?_, ?_, ?_⟩⟩
  · exact (h.exec_beside tiers' rest).2.trans (h.exec_beside tiers rest).2.symm
  · rw [hexec, hexec]
  · rw [hexec, hexec]

section Requests
variable (gw : RequestOrchestrator) {req : ChatRequest} (hbypass : req.bypassCache = true)
include hbypass

theorem admits_avoidingCache :
    Admits ⟨fun op => op.touchesCache = false, fun _ _ => True⟩ gw req :=
  .of_bypass (fun _ h => h) fun h => absurd h (by simp [hbypass])

theorem avoids_handleComplete : Program.Avoids Op.touchesCache (handleComplete gw req).run :=
  wp_mono (handleComplete_trace (admits_avoidingCache gw hbypass)) fun _ _ _ => trivial

theorem avoids_handleStream : Program.Avoids Op.touchesCache (handleStream gw req).run :=
  wp_mono (handleStream_trace (admits_avoidingCache gw hbypass)) fun _ _ _ => trivial

end Requests

/-- A bypassed request and the cache do not affect each other, through either handler,
whatever the cache operations would do and however everything else behaves. -/
theorem bypass_firewall (gw : RequestOrchestrator) (req : ChatRequest)
    (hbypass : req.bypassCache = true) (caches : Program.Handler Op Reply (CacheTiers × Rest))
    (others : Program.Handler Op Reply Rest) :
    Firewalled (Program.beside Op.touchesCache caches others) (handleComplete gw req) ∧
      Firewalled (Program.beside Op.touchesCache caches others) (handleStream gw req) :=
  ⟨.of_avoids (avoids_handleComplete gw hbypass) caches others,
    .of_avoids (avoids_handleStream gw hbypass) caches others⟩

/-- With a cache that would raise if it were touched. -/
theorem bypass_firewall_failover :
    let caches : Program.Handler Op Reply (CacheTiers × Nat) :=
      fun s _ => (.error (.failure "touched"), s)
    let others : Program.Handler Op Reply Nat := fun n op => (failoverAnswer op, n + 1)
    Firewalled (Program.beside Op.touchesCache caches others)
      (handleComplete ⟨true, fun _ => "digest"⟩ { hiRequest with bypassCache := true }) :=
  (bypass_firewall _ _ rfl _ _).1

end InferenceGateway.Orchestrator
