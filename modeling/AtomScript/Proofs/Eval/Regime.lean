import AtomScript.Proofs.Eval.Evaluator

/-!
# Invariants along runs

A `Regime` is an invariant of states, relative to a world, together with what a run may rely on and
what it promises: under bounds that let pass only events that are `Allowed`, every event it brings
about is `Done` as promised, and an error it ends with is one that is admitted (`Fails`).  Its
judgement (`Regime.Comp`) has the rules that a `Logic` asks for the ways of putting computations
together; a logic built on it adds the rules for the primitives, each an instance of
`Regime.comp_act`.

The invariant holds in the state of *every* ending, also of a run that was broken off.  So it holds
in all the states that a run passes through.
-/

namespace AtomScript

/-- An invariant of states, with what runs rely on and what they promise.  The invariant is about
the heap and the scopes: active calls, identities and output are none of its business. -/
structure Regime where
  /-- What may be known about the state. -/
  World : Type
  /-- The second world knows at least as much as the first. -/
  le : World → World → Prop
  le_refl : ∀ w, le w w
  le_trans : ∀ {u v w}, le u v → le v w → le u w
  /-- The invariant. -/
  Holds : World → Heap → ScopeTree → Prop
  /-- The events that can take place. -/
  Allowed : Event → State → State → Prop
  /-- What can be said of an event that takes place. -/
  Done : Event → State → State → Prop
  /-- A run may end with the error. -/
  Fails : Error → Prop
  /-- Whatever is not about signals may happen. -/
  fails_of_proper : ∀ {e : Error}, e.isProper = true → Fails e

namespace Regime

variable (R : Regime) {α β : Type}

/-- The state satisfies the invariant. -/
def Inv (w : R.World) (st : State) : Prop := R.Holds w st.heap st.scopes

/-- The ending is a value that satisfies the predicate, or an error that is admitted. -/
def Ends (w : R.World) (Q : R.World → α → Prop) : Ending α → Prop
  | .value a => Q w a
  | .error e => R.Fails e
  | .exhausted => True

/-- From a state that satisfies the invariant, the computation keeps it and its promises; and when
it ends with a value, then in a world where the predicate holds of that value. -/
def Comp (w : R.World) (Q : R.World → α → Prop) (x : Eval α) : Prop :=
  ∀ b : Bounds, b.Within R.Allowed → ∀ st, R.Inv w st →
    x.Meets b st R.Done ∧
      ∃ w', R.le w w' ∧ R.Inv w' (x b st).2 ∧ R.Ends w' Q (x b st).1

variable {R} {w : R.World} {Q : R.World → α → Prop}

/-- A computation that leaves the state alone, whatever the bounds. -/
theorem comp_of_still {x : Eval α} (ending : State → Ending α)
    (hx : ∀ b st, x b st = (ending st, st)) (hQ : ∀ st, R.Inv w st → R.Ends w Q (ending st)) :
    R.Comp w Q x := by
  intro b _ st hst
  refine ⟨?_, w, R.le_refl w, ?_, ?_⟩
  · change x (b.guarded R.Done) st = x b st
    rw [hx, hx]
  · rw [hx]
    exact hst
  · rw [hx]
    exact hQ st hst

theorem comp_pure {a : α} (h : Q w a) : R.Comp w Q (Pure.pure a) :=
  comp_of_still (fun _ => .value a) (fun _ _ => rfl) fun _ _ => h

theorem comp_fail {e : Error} (h : R.Fails e) : R.Comp w Q (Eval.fail e) :=
  comp_of_still (fun _ => .error e) (fun _ _ => rfl) fun _ _ => h

theorem comp_exhausted : R.Comp w Q Eval.exhausted :=
  comp_of_still (fun _ => .exhausted) (fun _ _ => rfl) fun _ _ => trivial

theorem comp_reading {f : State → α} (h : ∀ st, R.Inv w st → Q w (f st)) :
    R.Comp w Q (Eval.reading f) :=
  comp_of_still (fun st => .value (f st)) (fun _ _ => rfl) h

theorem comp_bind {S : R.World → β → Prop} {x : Eval α} {f : α → Eval β} (hx : R.Comp w Q x)
    (hf : ∀ w' a, R.le w w' → Q w' a → R.Comp w' S (f a)) : R.Comp w S (x >>= f) := by
  intro b hb st hst
  obtain ⟨hmeets, w₁, h₁, hinv, hQ⟩ := hx b hb st hst
  change x (b.guarded R.Done) st = x b st at hmeets
  -- the guarded run takes the same way through the first computation, so it comes to the same
  -- second one
  rcases h : x b st with ⟨a | e | _, after⟩
  · rw [h] at hmeets hinv hQ
    obtain ⟨hmeets', w₂, h₂, hinv', hS⟩ := hf w₁ a h₁ hQ b hb after hinv
    refine ⟨?_, w₂, R.le_trans h₁ h₂, ?_, ?_⟩
    · change (x >>= f) (b.guarded R.Done) st = (x >>= f) b st
      rw [Eval.bind_of_value h, Eval.bind_of_value hmeets]
      exact hmeets'
    · rw [Eval.bind_of_value h]
      exact hinv'
    · rw [Eval.bind_of_value h]
      exact hS
  · rw [h] at hmeets hinv hQ
    refine ⟨?_, w₁, h₁, ?_, ?_⟩
    · change (x >>= f) (b.guarded R.Done) st = (x >>= f) b st
      rw [Eval.bind_of_error h, Eval.bind_of_error hmeets]
    · rw [Eval.bind_of_error h]
      exact hinv
    · rw [Eval.bind_of_error h]
      exact hQ
  · rw [h] at hmeets hinv
    refine ⟨?_, w₁, h₁, ?_, ?_⟩
    · change (x >>= f) (b.guarded R.Done) st = (x >>= f) b st
      rw [Eval.bind_of_exhausted h, Eval.bind_of_exhausted hmeets]
    · rw [Eval.bind_of_exhausted h]
      exact hinv
    · rw [Eval.bind_of_exhausted h]
      exact trivial

/-- **An act**, which either fails, admittedly, and leaves the state alone, or succeeds as
promised. -/
theorem comp_act {event : Event} {g : State → Ending α × State}
    (hvalue : ∀ st a after, R.Inv w st → g st = (.value a, after) → R.Allowed event st after →
      R.Done event st after ∧ ∃ w', R.le w w' ∧ R.Inv w' after ∧ Q w' a)
    (hfail : ∀ st e, (g st).1 = .error e → (g st).2 = st ∧ R.Fails e)
    (hstop : ∀ st, (g st).1 ≠ .exhausted) :
    R.Comp w Q (Eval.act event g) := by
  intro b hb st hst
  rcases h : g st with ⟨a | e | _, after⟩
  · unfold Eval.Meets
    rw [Eval.act_of_value h, Eval.act_of_value h]
    -- an act that is permitted is allowed, so it is done as promised, and the guard permits it too
    by_cases hp : b.permits event st after = true
    · obtain ⟨hdone, w', hle, hinv, hQ⟩ := hvalue st a after hst h (hb event st after hp)
      rw [if_pos hp, if_pos (Bounds.permits_guarded.2 ⟨hp, hdone⟩)]
      exact ⟨rfl, w', hle, hinv, hQ⟩
    · -- whoever objects first, nothing has happened
      rw [if_neg hp, if_neg fun hg => hp (Bounds.permits_guarded.1 hg).1]
      exact ⟨rfl, w, R.le_refl w, hst, trivial⟩
  -- a failure is no event, and leaves the state as it was
  · obtain ⟨hsame, hfails⟩ := hfail st e (by rw [h])
    rw [h] at hsame
    unfold Eval.Meets
    rw [Eval.act_of_error h, Eval.act_of_error h]
    refine ⟨rfl, w, R.le_refl w, ?_, hfails⟩
    rw [show after = st from hsame]
    exact hst
  · exact absurd (by rw [h]) (hstop st)

/-- An act that always succeeds. -/
theorem comp_act_total {event : Event} {value : State → α} {next : State → State}
    (h : ∀ st, R.Inv w st → R.Allowed event st (next st) →
      R.Done event st (next st) ∧ ∃ w', R.le w w' ∧ R.Inv w' (next st) ∧ Q w' (value st)) :
    R.Comp w Q (Eval.act event fun st => (.value (value st), next st)) := by
  refine comp_act (fun st a after hst heq hallowed => ?_) (fun _ _ hv => ?_) fun _ hv => ?_
  · rw [Prod.mk.injEq, Ending.value.injEq] at heq
    obtain ⟨rfl, rfl⟩ := heq
    exact h st hst hallowed
  · cases hv
  · cases hv

theorem comp_frame {x : Eval α} (hx : R.Comp w Q x) : R.Comp w Q (Eval.frame x) := by
  intro b hb st hst
  by_cases hle : st.depth + 1 ≤ b.limit
  · obtain ⟨hmeets, w', hw, hinv, hQ⟩ := hx b hb { st with depth := st.depth + 1 } (hst)
    change x (b.guarded R.Done) _ = x b _ at hmeets
    have hle' : st.depth + 1 ≤ (b.guarded R.Done).limit := hle
    unfold Eval.Meets
    -- the body is run one deeper with either bounds, and gives the same in both
    rcases h : x b { st with depth := st.depth + 1 } with ⟨a | e | _, after⟩
    · rw [h] at hmeets hinv hQ
      rw [Eval.frame_of_value hle h, Eval.frame_of_value hle' hmeets]
      exact ⟨rfl, w', hw, hinv, hQ⟩
    · rw [h] at hmeets hinv hQ
      rw [Eval.frame_of_error hle h, Eval.frame_of_error hle' hmeets]
      exact ⟨rfl, w', hw, hinv, hQ⟩
    · rw [h] at hmeets hinv
      rw [Eval.frame_of_exhausted hle h, Eval.frame_of_exhausted hle' hmeets]
      exact ⟨rfl, w', hw, hinv, trivial⟩
  -- a call that is refused does not run its body
  · have hlt : b.limit < st.depth + 1 := Nat.lt_of_not_le hle
    have hlt' : (b.guarded R.Done).limit < st.depth + 1 := hlt
    unfold Eval.Meets
    rw [Eval.frame_of_lt hlt, Eval.frame_of_lt hlt']
    exact ⟨rfl, w, R.le_refl w, hst, R.fails_of_proper rfl⟩

/-! ### The primitives -/

/-- An act that touches neither the heap nor the scopes. -/
theorem comp_act_aside {event : Event} {value : State → α} {next : State → State}
    (hheap : ∀ st, (next st).heap = st.heap) (hscopes : ∀ st, (next st).scopes = st.scopes)
    (hdone : ∀ st after, after.heap = st.heap → R.Done event st after)
    (hQ : ∀ st, R.Inv w st → Q w (value st)) :
    R.Comp w Q (Eval.act event fun st => (.value (value st), next st)) := by
  refine comp_act_total fun st hst _ => ⟨hdone st _ (hheap st), w, R.le_refl w, ?_, hQ st hst⟩
  unfold Inv
  rw [hheap, hscopes]
  exact hst

/-- Detaching a key: either a copy is added to the heap, or the value contains itself. -/
theorem comp_detachKey {v : Value} {Q : R.World → Value → Prop}
    (h : ∀ st copy g, R.Inv w st → st.heap.detach v = .ok (copy, g) →
      R.Done .allocate st { st with heap := g } ∧
        ∃ w', R.le w w' ∧ R.Holds w' g st.scopes ∧ Q w' copy) :
    R.Comp w Q (Eval.detachKey v) := by
  -- the only way to end with a value is that the name was located
  refine comp_act (fun st copy after hst heq _ => ?_) (fun st e heq => ?_) fun st heq => ?_
  · split at heq
    · next copy' g hd =>
      cases heq
      exact h st copy g hst hd
    · cases heq
  · split at heq
    · cases heq
    · cases heq
      exact ⟨rfl, R.fails_of_proper rfl⟩
  · split at heq
    · cases heq
    · cases heq

theorem comp_lookup {s : ScopeId} {name : String} {Q : R.World → Value → Prop}
    (h : ∀ st v, R.Inv w st → st.scopes.lookup s name = .ok v → Q w v) :
    R.Comp w Q (Eval.lookup s name) := by
  -- the outcome of the look-up is what is read, and it decides between the value and the error
  have hread : R.Comp w
      (fun w' found => (∀ v, found = .ok v → Q w' v) ∧ ∀ e, found = .error e → R.Fails e)
      (Eval.reading fun st => st.scopes.lookup s name) :=
    comp_reading fun st hst => ⟨fun v hv => h st v hst hv, fun e he => by
      rw [ScopeTree.error_of_lookup he]
      exact R.fails_of_proper rfl⟩
  unfold Eval.lookup
  refine comp_bind hread fun w' found _ hfound => ?_
  cases found with
  | ok v => exact comp_pure (hfound.1 v rfl)
  | error e => exact comp_fail (hfound.2 e rfl)

/-- Declarations and assignments differ in the scope in which they bind the name. -/
theorem comp_binding (locate : ScopeTree → Except Error ScopeId) {name : String} {v : Value}
    (hfails : ∀ t e, locate t = .error e → R.Fails e)
    (h : ∀ st o, R.Inv w st → locate st.scopes = .ok o →
      R.Done .bind st { st with scopes := st.scopes.bind o name ⟨v, false⟩ } ∧
        ∃ w', R.le w w' ∧ R.Holds w' st.heap (st.scopes.bind o name ⟨v, false⟩)) :
    R.Comp w (fun _ _ => True) (Eval.act .bind fun st =>
      match locate st.scopes with
      | .ok o => (.value (), { st with scopes := st.scopes.bind o name ⟨v, false⟩ })
      | .error e => (.error e, st)) := by
  refine comp_act (fun st a after hst heq _ => ?_) (fun st e heq => ?_) fun st heq => ?_
  · cases hl : locate st.scopes with
    | error e =>
      rw [hl] at heq
      cases heq
    | ok o =>
      rw [hl] at heq
      cases heq
      obtain ⟨hdone, w', hle, hholds⟩ := h st o hst hl
      exact ⟨hdone, w', hle, hholds, trivial⟩
  · cases hl : locate st.scopes with
    | error e' =>
      rw [hl] at heq
      cases heq
      exact ⟨rfl, hfails st.scopes e hl⟩
    | ok o =>
      rw [hl] at heq
      cases heq
  · cases hl : locate st.scopes with
    | error e' =>
      rw [hl] at heq
      cases heq
    | ok o =>
      rw [hl] at heq
      cases heq

end Regime

end AtomScript
