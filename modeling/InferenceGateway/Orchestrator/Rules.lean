import InferenceGateway.Orchestrator.Pipeline

/-!
# Rules for the parts of the pipeline

Weakest-precondition rules for the parts that both handlers share. `WalkRule` is the rule
of the failover loop: an invariant of the remaining candidates and the last error, and
for each way one pass can go what it adds to the trace.
-/
namespace InferenceGateway.Orchestrator
open Library Library.Action

abbrev Contract := Program.Contract Op Reply

variable {C : Contract} {α : Type}

/-- The semaphore is given back however the body ends. -/
theorem wp_withSemaphore {backendId : Uuid} {body : Action α}
    {Q : List Event → Except Raised α → Prop} (hacquire : C.allowed (.acquire backendId))
    (hrelease : C.allowed (.release backendId))
    (hraises : ∀ e, C.promised (.acquire backendId) (.error e) →
      Q [⟨.acquire backendId, .error e⟩] (.error e))
    (hbody : ∀ u, C.promised (.acquire backendId) (.ok u) → wp C body fun trace r =>
      ∀ r', C.promised (.release backendId) r' →
        Q (⟨.acquire backendId, .ok u⟩ :: (trace ++ [⟨.release backendId, r'⟩]))
          (r'.bind fun _ => r)) :
    wp C (withSemaphore backendId body) Q := by
  unfold withSemaphore
  refine wp_call_bind hacquire hraises fun u hu => ?_
  refine (wp_bind _).mpr ((wp_attempt _).mpr (wp_mono (hbody u hu) fun trace r hQ => ?_))
  refine wp_call_bind hrelease (fun e he => hQ _ he) fun v hv => ?_
  cases r with
  | ok a => exact hQ _ hv
  | error e => exact hQ _ hv

/-- The loop rule. `Inv` is the invariant at the top of the loop, `Q` the postcondition
of the loop from there on. -/
structure WalkRule (C : Contract) (req : ChatRequest) (stopped : Raised)
    (body : Backend → Client → Action (Pass α)) (exhausted : Option Raised → Action α)
    (Inv : List (Backend × Client) → Option Raised → Prop)
    (Q : List (Backend × Client) → Option Raised → List Event → Except Raised α → Prop) :
    Prop where
  select_allowed : ∀ {rem err}, Inv rem err → rem ≠ [] →
    C.allowed (.select (rem.map Prod.fst) (features req))
  select_raises : ∀ {rem err e}, Inv rem err → rem ≠ [] →
    C.promised (.select (rem.map Prod.fst) (features req)) (.error e) →
    Q rem err [⟨.select (rem.map Prod.fst) (features req), .error e⟩] (.error e)
  stops : ∀ {rem err chosen}, Inv rem err → rem ≠ [] →
    C.promised (.select (rem.map Prod.fst) (features req)) (.ok chosen) →
    pairOf chosen.id rem = none →
    Q rem err [⟨.select (rem.map Prod.fst) (features req), .ok chosen⟩] (.error stopped)
  allow_allowed : ∀ {rem err chosen backend client}, Inv rem err →
    pairOf chosen rem = some (backend, client) → C.allowed (.allow backend.id)
  allow_raises : ∀ {rem err chosen backend client e}, Inv rem err →
    pairOf chosen.id rem = some (backend, client) → C.promised (.allow backend.id) (.error e) →
    Q rem err [⟨.select (rem.map Prod.fst) (features req), .ok chosen⟩,
      ⟨.allow backend.id, .error e⟩] (.error e)
  rejects : ∀ {rem err chosen backend client}, Inv rem err →
    C.promised (.select (rem.map Prod.fst) (features req)) (.ok chosen) →
    pairOf chosen.id rem = some (backend, client) → C.promised (.allow backend.id) (.ok false) →
    Inv (without chosen.id rem) err ∧
    ∀ trace r, Q (without chosen.id rem) err trace r →
      Q rem err (⟨.select (rem.map Prod.fst) (features req), .ok chosen⟩ ::
        ⟨.allow backend.id, .ok false⟩ :: trace) r
  admits : ∀ {rem err chosen backend client}, Inv rem err →
    C.promised (.select (rem.map Prod.fst) (features req)) (.ok chosen) →
    pairOf chosen.id rem = some (backend, client) → C.promised (.allow backend.id) (.ok true) →
    wp C (body backend client) fun trace r => match r with
      | .error e => Q rem err (⟨.select (rem.map Prod.fst) (features req), .ok chosen⟩ ::
          ⟨.allow backend.id, .ok true⟩ :: trace) (.error e)
      | .ok (.done a) => Q rem err (⟨.select (rem.map Prod.fst) (features req), .ok chosen⟩ ::
          ⟨.allow backend.id, .ok true⟩ :: trace) (.ok a)
      | .ok (.next err') => Inv (without chosen.id rem) err' ∧
          ∀ trace' r', Q (without chosen.id rem) err' trace' r' →
            Q rem err (⟨.select (rem.map Prod.fst) (features req), .ok chosen⟩ ::
              ⟨.allow backend.id, .ok true⟩ :: (trace ++ trace')) r'
  exhausts : ∀ {err}, Inv [] err → wp C (exhausted err) (Q [] err)

/-- The failover loop, by induction on the number of remaining candidates. -/
theorem WalkRule.wp_walk {req : ChatRequest} {stopped : Raised}
    {body : Backend → Client → Action (Pass α)} {exhausted : Option Raised → Action α}
    {Inv : List (Backend × Client) → Option Raised → Prop}
    {Q : List (Backend × Client) → Option Raised → List Event → Except Raised α → Prop}
    (h : WalkRule C req stopped body exhausted Inv Q) {rem : List (Backend × Client)}
    {err : Option Raised} (hinv : Inv rem err) :
    wp C (walk req stopped body exhausted rem err) (Q rem err) := by
  induction hn : rem.length using Nat.strong_induction_on generalizing rem err with
  | _ n ih =>
    subst hn
    rw [walk]
    by_cases hrem : rem = []
    · subst hrem
      exact h.exhausts hinv
    · rw [if_neg hrem]
      refine wp_call_bind (h.select_allowed hinv hrem)
        (fun e hselect => h.select_raises hinv hrem hselect) fun chosen hselect => ?_
      split
      · rename_i hpair
        exact h.stops hinv hrem hselect hpair
      · rename_i backend client hpair
        have hlt := length_without_lt hpair
        refine wp_call_bind (h.allow_allowed hinv hpair)
          (fun e hallow => h.allow_raises hinv hpair hallow) fun verdict hallow => ?_
        cases verdict with
        | false =>
          obtain ⟨hinv', hstep⟩ := h.rejects hinv hselect hpair hallow
          exact wp_mono (ih _ hlt hinv' rfl) fun trace r hQ => hstep trace r hQ
        | true =>
          refine (wp_bind _).mpr (wp_mono (h.admits hinv hselect hpair hallow) ?_)
          intro trace r hr
          cases r with
          | error e => exact hr
          | ok pass =>
            cases pass with
            | done a => simpa [wp_pure] using hr
            | next err' =>
              obtain ⟨hinv', hstep⟩ := hr
              exact wp_mono (ih _ hlt hinv' rfl) fun trace' r' hQ => by
                simpa using hstep trace' r' hQ

end InferenceGateway.Orchestrator
