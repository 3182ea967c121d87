import AtomScript.Proofs.Eval.Evaluator

/-!
# Families of computations

Some properties of computations ask nothing of the values that are at large.  Such a property is a
`Family`: it is kept by putting computations together, and every act has it that leaves the number
of active calls alone and fails with no error of the kinds that are found in a text.  A family is a
`Logic` without worlds (`Family.logic`), so that every program belongs to it.

In the rule for `bind` the continuation need only belong to the family for the values that the
computation before it can give.
-/

namespace AtomScript

/-- A property of computations that is kept by putting them together. -/
structure Family where
  /-- The computation has the property. -/
  Has : {α : Type} → Eval α → Prop
  pure : ∀ {α : Type} {a : α}, Has (Pure.pure a : Eval α)
  bind : ∀ {α β : Type} {x : Eval α} {f : α → Eval β}, Has x →
    (∀ b st a after, x b st = (.value a, after) → Has (f a)) → Has (x >>= f)
  fail : ∀ {α : Type} {e : Error}, e.isSyntaxError = false → Has (Eval.fail e : Eval α)
  exhausted : ∀ {α : Type}, Has (Eval.exhausted : Eval α)
  reading : ∀ {α : Type} {f : State → α}, Has (Eval.reading f)
  act : ∀ {α : Type} {event} {f : State → Ending α × State},
    (∀ st, (f st).2.depth = st.depth) →
    (∀ st e, (f st).1 = .error e → e.isSyntaxError = false) → Has (Eval.act event f)
  frame : ∀ {α : Type} {x : Eval α}, Has x → Has (Eval.frame x)

namespace Family

variable (F : Family) {α : Type}

/-- The computation has the property, and its values satisfy the predicate. -/
def Comp (Q : Unit → α → Prop) (x : Eval α) : Prop :=
  F.Has x ∧ ∀ b st a after, x b st = (.value a, after) → Q () a

variable {F}

/-- Giving a value is in every family. -/
theorem comp_pure {Q : Unit → α → Prop} {a : α} (h : Q () a) : F.Comp Q (Pure.pure a) := by
  refine ⟨F.pure, fun b st a' after heq => ?_⟩
  rw [Eval.pure_apply, Prod.mk.injEq, Ending.value.injEq] at heq
  exact heq.1 ▸ h

/-- A family is closed under one computation after another. -/
theorem comp_bind {β : Type} {Q : Unit → α → Prop} {R : Unit → β → Prop} {x : Eval α}
    {f : α → Eval β} (hx : F.Comp Q x) (hf : ∀ a, Q () a → F.Comp R (f a)) :
    F.Comp R (x >>= f) := by
  obtain ⟨hx, hQ⟩ := hx
  refine ⟨F.bind hx fun b st a after heq => (hf a (hQ b st a after heq)).1, ?_⟩
  intro b st c after heq
  -- the values of the second computation are those after a value of the first
  rcases hxb : x b st with ⟨a | e | _, mid⟩
  · rw [Eval.bind_of_value hxb] at heq
    exact (hf a (hQ b st a mid hxb)).2 b mid c after heq
  · rw [Eval.bind_of_error hxb] at heq
    exact absurd heq (by simp)
  · rw [Eval.bind_of_exhausted hxb] at heq
    exact absurd heq (by simp)

/-- Nothing is asked of the value. -/
theorem comp_of_has {x : Eval α} (h : F.Has x) {Q : Unit → α → Prop} (hQ : ∀ a, Q () a) :
    F.Comp Q x :=
  ⟨h, fun _ _ a _ _ => hQ a⟩

/-- A family is closed under calls. -/
theorem comp_frame {Q : Unit → α → Prop} {x : Eval α} (hx : F.Comp Q x) :
    F.Comp Q (Eval.frame x) := by
  refine ⟨F.frame hx.1, fun b st a after heq => ?_⟩
  -- inside the frame the value is that of the body; a call that is refused has none
  by_cases hle : st.depth + 1 ≤ b.limit
  · rcases hxb : x b { st with depth := st.depth + 1 } with ⟨c | e | _, mid⟩
    · rw [Eval.frame_of_value hle hxb, Prod.mk.injEq, Ending.value.injEq] at heq
      exact heq.1 ▸ hx.2 b _ c mid hxb
    · rw [Eval.frame_of_error hle hxb] at heq
      exact absurd heq (by simp)
    · rw [Eval.frame_of_exhausted hle hxb] at heq
      exact absurd heq (by simp)
  · rw [Eval.frame_of_lt (by omega)] at heq
    exact absurd heq (by simp)

/-! ### The primitives -/

/-- An act that cannot fail. -/
theorem has_act {event : Event} {f : State → Ending α × State}
    (h : ∀ st, (f st).2.depth = st.depth ∧ ∃ a, (f st).1 = .value a) :
    F.Has (Eval.act event f) := by
  refine F.act (fun st => (h st).1) fun st e he => ?_
  obtain ⟨a, ha⟩ := (h st).2
  cases ha.symm.trans he

/-- A new cell is in every family. -/
theorem has_alloc (c : Cell) : F.Has (Eval.alloc c) := has_act fun _ => ⟨rfl, _, rfl⟩

/-- An edit of a table is in every family. -/
theorem has_editTable (event : Ref → Event) (r : Ref) (f : Heap → Table → Table) :
    F.Has (Eval.editTable event r f) := has_act fun _ => ⟨rfl, _, rfl⟩

/-- Detaching a key is in every family. -/
theorem has_detachKey (v : Value) : F.Has (Eval.detachKey v) := by
  refine F.act (fun st => ?_) fun st e h => ?_
  · split
    · rfl
    · rfl
  · split at h
    · cases h
    · cases h
      rfl

/-- Looking a name up is in every family. -/
theorem has_lookup (s : ScopeId) (name : String) : F.Has (Eval.lookup s name) := by
  refine F.bind F.reading fun b st found after h => ?_
  have hfound : st.scopes.lookup s name = found := Ending.value.inj (Prod.mk.inj h).1
  cases found with
  | ok v => exact F.pure
  | error e =>
    -- a name that is not found is the only failure
    obtain rfl := ScopeTree.error_of_lookup hfound
    exact F.fail rfl

/-- Declaring a name is in every family. -/
theorem has_declare (s : ScopeId) (name : String) (v : Value) :
    F.Has (Eval.declare s name v) := by
  refine F.act (fun st => ?_) fun st e h => ?_
  · split
    · rfl
    · rfl
  · split at h
    · cases h
    · next hdeclare =>
      cases h
      obtain rfl := ScopeTree.error_of_declareIn hdeclare
      rfl

/-- Assigning to a name is in every family. -/
theorem has_assign (s : ScopeId) (name : String) (v : Value) :
    F.Has (Eval.assign s name v) := by
  refine F.act (fun st => ?_) fun st e h => ?_
  · split
    · rfl
    · rfl
  · split at h
    · cases h
    · next hassign =>
      cases h
      obtain rfl | rfl := ScopeTree.error_of_assignIn hassign
      · rfl
      · rfl

/-- **A family as a logic.**  There is one world, in which every value may be at large; only the
errors that are found in a text are not admitted. -/
def logic (F : Family) : Logic where
  -- nothing is known of values and scopes, so all that is asked of them holds
  World := Unit
  le _ _ := True
  le_refl _ := trivial
  le_trans _ _ := trivial
  Inv _ _ := True
  Val _ _ := True
  Key _ _ := True
  Tab _ _ := True
  Scope _ _ := True
  Here _ _ := True
  Body _ := True
  Fails e := e.isSyntaxError = false
  Comp _ Q x := F.Comp Q x
  val_mono _ _ := trivial
  key_mono _ _ := trivial
  tab_mono _ _ := trivial
  scope_mono _ _ := trivial
  here_mono _ _ := trivial
  here_scope _ := trivial
  val_plain _ := trivial
  val_function := by simp
  val_lambda := Iff.rfl
  fails_of_proper he := ((Error.isProper_iff _).1 he).2
  fails_of_body _ _ _ := rfl
  items _ _ _ _ _ := trivial
  entries _ _ _ _ := ⟨trivial, trivial⟩
  tab_withRoom := trivial
  tab_insert _ _ _ _ := trivial
  -- the rules for putting computations together are those of the family
  pure := comp_pure
  bind hx hf := comp_bind hx fun a ha => hf () a trivial ha
  fail he := ⟨F.fail he, fun _ _ _ _ heq => absurd heq (by simp [Eval.fail])⟩
  exhausted := ⟨F.exhausted, fun _ _ _ _ heq => absurd heq (by simp [Eval.exhausted])⟩
  reading := by
    intro α w Q f hQ
    refine ⟨F.reading, fun b st a after heq => ?_⟩
    unfold Eval.reading at heq
    rw [Prod.mk.injEq, Ending.value.injEq] at heq
    exact heq.1 ▸ hQ st trivial
  frame := comp_frame
  -- each primitive is an act that leaves the number of active calls alone
  newTuple _ := comp_of_has (F.bind (has_alloc _) fun _ _ _ _ _ => F.pure) fun _ => trivial
  newList _ := comp_of_has (F.bind (has_alloc _) fun _ _ _ _ _ => F.pure) fun _ => trivial
  newMap _ := comp_of_has (F.bind (has_alloc _) fun _ _ _ _ _ => F.pure) fun _ => trivial
  editItems _ _ _ := comp_of_has (has_act fun _ => ⟨rfl, _, rfl⟩) fun _ => trivial
  put _ _ _ := comp_of_has (has_editTable _ _ _) fun _ => trivial
  replace _ _ _ := comp_of_has (has_editTable _ _ _) fun _ => trivial
  delete _ _ := comp_of_has (has_editTable _ _ _) fun _ => trivial
  lendEntries _ :=
    comp_of_has (has_act fun _ => ⟨rfl, _, rfl⟩) fun _ _ _ => ⟨trivial, trivial, trivial⟩
  detachKey _ := comp_of_has (has_detachKey _) fun _ => trivial
  newScope _ := comp_of_has (has_act fun _ => ⟨rfl, _, rfl⟩) fun _ => trivial
  lookup _ := comp_of_has (has_lookup _ _) fun _ => trivial
  declare _ _ := comp_of_has (has_declare _ _ _) fun _ => trivial
  assign _ _ := comp_of_has (has_assign _ _ _) fun _ => trivial
  newIdentity := comp_of_has (has_act fun _ => ⟨rfl, _, rfl⟩) fun _ => trivial
  print := comp_of_has (has_act fun _ => ⟨rfl, _, rfl⟩) fun _ => trivial

/-! ### Every evaluation belongs to every family -/

section Evaluation

variable (F) (n : Nat)

/-- The evaluator is in every family, for any fuel. -/
theorem evaluates : F.logic.Evaluates n := Logic.evaluates F.logic n

/-- Expressions are in every family. -/
theorem has_evalExpr (s : ScopeId) (e : Expr) : F.Has (evalExpr n s e) :=
  ((F.evaluates n).expr (w := ()) (s := s) trivial).1

/-- Statements are in every family. -/
theorem has_evalStmt (s : ScopeId) (stmt : Stmt) : F.Has (evalStmt n s stmt) :=
  ((F.evaluates n).stmt (w := ()) (s := s) trivial fun _ _ => trivial).1

/-- Blocks are in every family. -/
theorem has_evalBlock (s : ScopeId) (body : List Stmt) : F.Has (evalBlock n s body) :=
  ((F.evaluates n).block (w := ()) (s := s) trivial fun _ _ _ _ => trivial).1

/-- Calls are in every family. -/
theorem has_callValue (v : Value) (args : List Value) : F.Has (callValue n v args) :=
  ((F.evaluates n).call (w := ()) trivial fun _ _ => trivial).1

variable {n}

/-- A built-in function belongs to the family if its callbacks do. -/
theorem has_native {call : Native.Caller} (hcall : ∀ v vs, F.Has (call v vs)) (f : Native)
    (args : List Value) : F.Has (f.run call args) :=
  (Logic.native (L := F.logic) (w := ()) (fun _ _ => trivial)
    fun _ v vs _ _ _ => comp_of_has (hcall v vs) fun _ => trivial).1

end Evaluation

/-- The logic of a family admits every statement. -/
theorem admits (stmt : Stmt) : F.logic.Admits stmt :=
  ⟨fun _ _ => trivial, fun k _ => by cases k <;> rfl⟩

/-- Programs are in every family. -/
theorem has_evalProgram (n : Nat) (s : ScopeId) (p : Program) : F.Has (evalProgram n s p) :=
  (Logic.evalProgram (L := F.logic) (w := ()) trivial fun stmt _ => admits stmt).1

/-- Programs of which the last value counts are in every family. -/
theorem has_evalLast (n : Nat) (s : ScopeId) (p : Program) : F.Has (evalLast n s p) :=
  (Logic.evalLast (L := F.logic) (w := ()) trivial fun stmt _ => admits stmt).1

end Family

end AtomScript
