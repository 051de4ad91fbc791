import InferenceGateway.Library.Schedule
import InferenceGateway.Orchestrator.HotReload

/-!
# Where cached answers come from

In every pool, what L1 holds under a key is what the last put of that key has written, and
every entry of L2 has been inserted. So an answer that a request finds in either tier has
been written there by some request before.
-/
namespace InferenceGateway.Orchestrator
open Library Backends Cache Persistence Redis

/-- A put of the key that has returned. -/
def PutOn (key : String) : Event → Prop
  | ⟨.exactPut model promptHash _ _ _, .ok _⟩ => l1Key model promptHash = key
  | _ => False

/-- A put of the key has written this payload, and no later one has returned. -/
def LastPut (h : List (Nat × Event)) (key : String) (payload : Payload) : Prop :=
  ∃ before tag model promptHash r after,
    h = before ++ (tag, ⟨.exactPut model promptHash payload.content payload.tokensIn
      payload.tokensOut, r⟩) :: after ∧
    l1Key model promptHash = key ∧ ∀ e ∈ after, ¬ PutOn key e.2

theorem LastPut.concat {h : List (Nat × Event)} {key : String} {payload : Payload}
    (hp : LastPut h key payload) {e : Nat × Event} (he : ¬ PutOn key e.2) :
    LastPut (h ++ [e]) key payload := by
  obtain ⟨before, tag, model, promptHash, r, after, rfl, hkey, hafter⟩ := hp
  refine ⟨before, tag, model, promptHash, r, after ++ [e], by simp, hkey, ?_⟩
  exact List.forall_mem_append.mpr ⟨hafter, List.forall_mem_singleton.mpr he⟩

/-! ## What operations do to the tiers -/

section Tiers
variable {cache : TwoTierCache} {w w' : World} {op : Op} {r : Reply op}

/-- Only a put changes L1. One that leaves it has raised. -/
theorem l1_cases (hhandle : Handles cache w op r w') :
    (w'.l1 = w.l1 ∧ ∀ key, ¬ PutOn key ⟨op, r⟩) ∨
      ∃ model promptHash content tokensIn tokensOut now,
        op = .exactPut model promptHash content tokensIn tokensOut ∧
        w'.l1 = cache.l1.put w.l1 now model promptHash content tokensIn tokensOut := by
  cases op with
  | exactPut model promptHash content tokensIn tokensOut =>
    obtain ⟨now, rfl⟩ | ⟨rfl, e, rfl⟩ := hhandle
    · exact .inr ⟨model, promptHash, content, tokensIn, tokensOut, now, rfl, rfl⟩
    · exact .inl ⟨rfl, fun _ => id⟩
  | insertEntry => obtain rfl | ⟨rfl, -⟩ := hhandle <;> exact .inl ⟨rfl, fun _ => id⟩
  | upsert => obtain ⟨uuid4, rfl, -⟩ | ⟨rfl, -⟩ := hhandle <;> exact .inl ⟨rfl, fun _ => id⟩
  | install rows =>
    obtain ⟨clientFactory, hinstall⟩ := hhandle
    refine .inl ⟨?_, fun _ => id⟩
    split at hinstall
    · rw [hinstall.1]
    · rw [hinstall.1]
  | exactGet | findSimilar | candidates | listBackends =>
    obtain ⟨rfl, -⟩ := hhandle
    exact .inl ⟨rfl, fun _ => id⟩
  | _ =>
    obtain rfl : w' = w := hhandle
    exact .inl ⟨rfl, fun _ => id⟩

/-- Only an insert changes L2. -/
theorem entries_cases (hhandle : Handles cache w op r w') :
    w'.entries = w.entries ∨ ∃ entry, op = .insertEntry entry ∧
      w'.entries = w.entries ++ [entry] := by
  cases op with
  | exactPut => obtain ⟨now, rfl⟩ | ⟨rfl, -⟩ := hhandle <;> exact .inl rfl
  | insertEntry entry =>
    obtain rfl | ⟨rfl, -⟩ := hhandle
    · exact .inr ⟨entry, rfl, rfl⟩
    · exact .inl rfl
  | upsert => obtain ⟨uuid4, rfl, -⟩ | ⟨rfl, -⟩ := hhandle <;> exact .inl rfl
  | install rows =>
    obtain ⟨clientFactory, hinstall⟩ := hhandle
    refine .inl ?_
    split at hinstall
    · rw [hinstall.1]
    · rw [hinstall.1]
  | exactGet | findSimilar | candidates | listBackends =>
    obtain ⟨rfl, -⟩ := hhandle
    exact .inl rfl
  | _ =>
    obtain rfl : w' = w := hhandle
    exact .inl rfl

end Tiers

/-! ## What a lookup finds -/

/-- What a lookup has found was written before, and the registry offers backends under
their models. -/
def Sound (past : List (Nat × Event)) : Event → Prop
  | ⟨.exactGet model promptHash, .ok (some hit)⟩ => hit.tier = .l1 ∧
      LastPut past (l1Key model promptHash) ⟨hit.content, hit.tokensIn, hit.tokensOut⟩
  | ⟨.findSimilar .., .ok (some entry)⟩ => ∃ tag r, (tag, ⟨.insertEntry entry, r⟩) ∈ past
  | ⟨.candidates model, .ok pairs⟩ => ∀ pair ∈ pairs, pair.1.model = model
  | _ => True

/-- What the tiers hold has been written, and so had everything that was found. -/
structure CacheOrigins (s : Running) (h : List (Nat × Event)) : Prop where
  l1 : ∀ key stored, s.world.l1 key = some stored → LastPut h key stored.value
  l2 : ∀ entry ∈ s.world.entries, ∃ tag r, (tag, ⟨.insertEntry entry, r⟩) ∈ h
  registry : s.world.registry.Grouped
  sound : ∀ before e after, h = before ++ e :: after → Sound before e.2

section Steps
variable {cache : TwoTierCache} {s : Running} {h : List (Nat × Event)}

theorem CacheOrigins.sound_next {op : Op} {r : Reply op} {w' : World} (hs : CacheOrigins s h)
    (hhandle : Handles cache s.world op r w') : Sound h ⟨op, r⟩ := by
  cases op with
  | exactGet model promptHash =>
    obtain ⟨-, ⟨now, rfl⟩ | ⟨e, rfl⟩⟩ := hhandle
    · cases hhit : ExactCache.get s.world.l1 now model promptHash with
      | none => trivial
      | some hit =>
        obtain ⟨htier, stored, hstored, hvalue⟩ := ExactCache.exists_stored hhit
        exact ⟨htier, hvalue ▸ hs.l1 _ stored hstored⟩
    · trivial
  | findSimilar model embedding =>
    obtain ⟨-, ⟨rows, hrows, rfl⟩ | ⟨e, rfl⟩⟩ := hhandle
    · cases hentry : SemanticCacheRepo.findSimilar cache.cosineDistance cache.similarityThreshold
        rows model embedding with
      | none => trivial
      | some entry => exact hs.l2 entry (hrows (SemanticCacheRepo.findSimilar_mem hentry).1)
    · trivial
  | candidates model =>
    obtain ⟨-, ⟨pairs, hpairs, rfl⟩ | ⟨e, rfl⟩⟩ := hhandle
    · exact hs.registry.candidates hpairs
    · trivial
  | _ => trivial

/-- Every operation keeps the origins. -/
theorem CacheOrigins.handle {gw : RequestOrchestrator} {table : List Backend} {s' : Running}
    {tag : Nat} {op : Op} {r : Reply op} (hs : CacheOrigins s h)
    (hhandle : (hotReload cache gw table).handle s op r s') :
    CacheOrigins s' (h ++ [(tag, ⟨op, r⟩)]) := by
  obtain ⟨hhandle, -, -⟩ := hhandle
  refine ⟨fun key stored hstored => ?_, fun entry hentry => ?_, ?_, fun before e after heq => ?_⟩
  · obtain ⟨hsame, hnot⟩ | ⟨model, promptHash, content, tokensIn, tokensOut, now, rfl, hput⟩ :=
      l1_cases hhandle
    · exact (hs.l1 key stored (hsame ▸ hstored)).concat (hnot key)
    · by_cases hkey : key = l1Key model promptHash
      · have hnew : (⟨⟨content, tokensIn, tokensOut⟩, now + cache.l1.ttlSeconds⟩ :
            Stored Payload) = stored := by
          simpa [hput, ExactCache.put, Strings.setEx, hkey] using hstored
        obtain rfl := hnew
        exact ⟨h, tag, model, promptHash, r, [], rfl, hkey.symm, by simp⟩
      · have hold : s.world.l1 key = some stored := by
          simpa [hput, ExactCache.put, Strings.setEx, hkey] using hstored
        refine (hs.l1 key stored hold).concat fun hon => hkey ?_
        cases r with
        | ok u => exact hon.symm
        | error e => exact hon.elim
  · obtain hsame | ⟨new, rfl, hnew⟩ := entries_cases hhandle
    · obtain ⟨tag', r', hmem⟩ := hs.l2 entry (hsame ▸ hentry)
      exact ⟨tag', r', List.mem_append_left _ hmem⟩
    · rw [hnew, List.mem_append, List.mem_singleton] at hentry
      obtain hold | rfl := hentry
      · obtain ⟨tag', r', hmem⟩ := hs.l2 entry hold
        exact ⟨tag', r', List.mem_append_left _ hmem⟩
      · exact ⟨tag, r, by simp⟩
  · by_cases hop : ∃ rows, op = .install rows
    · obtain ⟨rows, rfl⟩ := hop
      obtain ⟨clientFactory, hinstall⟩ := hhandle
      split at hinstall
      · rename_i registry oldClients hnew
        rw [hinstall.1]
        exact BackendRegistry.Grouped.install hnew
      · rw [hinstall.1]
        exact hs.registry
    · rw [handle_registry hhandle fun rows hrows => hop ⟨rows, hrows⟩]
      exact hs.registry
  · obtain rfl | ⟨after, last, rfl⟩ := List.eq_nil_or_concat' after
    · obtain ⟨rfl, hlast⟩ := List.append_inj' heq rfl
      obtain rfl := List.singleton_inj.mp hlast
      exact hs.sound_next hhandle
    · rw [← List.cons_append, ← List.append_assoc] at heq
      exact hs.sound before e after (List.append_inj' heq rfl).1

theorem CacheOrigins.drift {s' : Running} (hs : CacheOrigins s h)
    (hdrift : Drift s.world s'.world) : CacheOrigins s' h := by
  obtain ⟨w', made⟩ := s'
  cases hdrift with
  | expire gone =>
    refine { hs with l1 := fun key stored hstored => ?_ }
    exact hs.l1 key stored (Option.ite_none_left_eq_some.mp hstored).2
  | evict entries hsub => exact { hs with l2 := fun entry hentry => hs.l2 entry (hsub hentry) }
  | table table => exact { hs with }
  | aclose => exact { hs with registry := BackendRegistry.grouped_empty }

/-- The origins hold in every pool. -/
theorem cacheOrigins {gw : RequestOrchestrator} {table : List Backend}
    {w : Pool Nat Running Op Reply Outcome}
    (h : Pool.Reachable (hotReload cache gw table) w) : CacheOrigins w.state w.history := by
  refine h.invariant ⟨fun key stored hstored => ?_, fun entry hentry => ?_,
    BackendRegistry.grouped_empty, fun before e after heq => ?_⟩
    (fun _ _ _ _ _ _ hs hhandle => hs.handle hhandle) fun _ _ _ hs hdrift => hs.drift hdrift.1
  · simp [hotReload, Strings.empty] at hstored
  · simp [hotReload] at hentry
  · simp at heq

end Steps

end InferenceGateway.Orchestrator
