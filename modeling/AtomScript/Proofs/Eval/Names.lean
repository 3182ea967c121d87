import AtomScript.Proofs.Eval.Realm
import AtomScript.Proofs.Scope.Basic

/-!
# Where names are declared

A name is declared in the scope at hand and nowhere else: the bodies of functions and the branches
of a conditional run in scopes of their own, the body of a loop in the scope around it, and an
assignment goes to the scope that owns the name.  No binding is ever taken away, and constants are
neither bound again nor introduced.

So of the scopes that are there when an evaluation begins, the one that it takes place in may own
more names when it ends, and all others own the names that they owned.

* `Scope.Grows`, `Scope.KeepsNames` — what may become of one scope;
* `ScopeTree.GrowsIn` — the same of a tree, by the scopes in which names may be declared;
* `evaluation_names` — what each part of the evaluator does.
-/

namespace AtomScript

/-! ### One scope -/

namespace Scope

/-- The scope has the scopes around it that it had, names that it had and perhaps others, and the
same constants with the same values. -/
structure Grows (s s' : Scope) : Prop where
  outer : s'.outer = s.outer
  owns : ∀ name, s.owns name = true → s'.owns name = true
  constants : ∀ name v, s'.find? name = some ⟨v, true⟩ ↔ s.find? name = some ⟨v, true⟩

/-- No name is new, either. -/
structure KeepsNames (s s' : Scope) : Prop extends s.Grows s' where
  names : ∀ name, s'.owns name = s.owns name

theorem KeepsNames.refl (s : Scope) : s.KeepsNames s :=
  ⟨⟨rfl, fun _ h => h, fun _ _ => Iff.rfl⟩, fun _ => rfl⟩

variable {s s' : Scope} {name : String} {v : Value}

theorem owns_bind (b : Binding) (other : String) :
    (s.bind name b).owns other = (decide (name = other) || s.owns other) := by
  rw [owns_eq, owns_eq, find?_bind]
  split
  · next h => simp [h]
  · next h => simp [h]

/-- A variable may be bound in the scope, under a name that is no constant of it. -/
theorem Grows.bind (h : s.Grows s') (hname : ∀ u, s'.find? name ≠ some ⟨u, true⟩) :
    s.Grows (s'.bind name ⟨v, false⟩) where
  outer := h.outer
  owns := fun other hother => by
    rw [owns_bind, h.owns other hother, Bool.or_true]
  constants := fun other u => by
    rw [← h.constants, find?_bind]
    -- neither the old binding of the name nor the new one is a constant
    split
    · next heq =>
      refine iff_of_false ?_ (heq ▸ hname u)
      simp
    · exact Iff.rfl

theorem KeepsNames.bind (h : s.KeepsNames s') (hname : ∀ u, s'.find? name ≠ some ⟨u, true⟩)
    (howns : s'.owns name = true) : s.KeepsNames (s'.bind name ⟨v, false⟩) where
  toGrows := h.toGrows.bind hname
  names := fun other => by
    rw [← h.names, owns_bind]
    by_cases heq : name = other
    · rw [← heq, howns, Bool.or_true]
    · rw [decide_eq_false heq, Bool.false_or]

end Scope

/-! ### All scopes -/

namespace ScopeTree

/-- The scopes of the first tree are still there, and names were declared in none but those that
satisfy `D`. -/
structure GrowsIn (D : ScopeId → Prop) (t t' : ScopeTree) : Prop where
  size : t.size ≤ t'.size
  grows : ∀ i < t.size, (t.scope i).Grows (t'.scope i)
  keeps : ∀ i < t.size, ¬ D i → (t.scope i).KeepsNames (t'.scope i)

variable {D : ScopeId → Prop} {t t' : ScopeTree} {s o : ScopeId} {name : String} {v : Value}

theorem GrowsIn.refl (t : ScopeTree) : t.GrowsIn D t :=
  ⟨Nat.le_refl _, fun _ _ => (Scope.KeepsNames.refl _).toGrows, fun _ _ _ => .refl _⟩

theorem GrowsIn.addChild (h : t.GrowsIn D t') : t.GrowsIn D (t'.addChild s) := by
  -- the new scope stands behind all others
  have hscope : ∀ i < t.size, (t'.addChild s).scope i = t'.scope i := fun i hi => by
    have hne : i ≠ t'.size := Nat.ne_of_lt (Nat.lt_of_lt_of_le hi h.size)
    unfold ScopeTree.addChild
    rw [scope_push, if_neg hne]
  refine ⟨?_, fun i hi => ?_, fun i hi hD => ?_⟩
  · rw [size_addChild]
    exact Nat.le_succ_of_le h.size
  · rw [hscope i hi]
    exact h.grows i hi
  · rw [hscope i hi]
    exact h.keeps i hi hD

/-- A variable may be bound in a scope that has no constant of the name, if the scope is new, is one
of those where names may be declared, or owns the name. -/
theorem GrowsIn.bind (h : t.GrowsIn D t') (hname : ∀ u, (t'.scope o).find? name ≠ some ⟨u, true⟩)
    (ho : o < t.size → D o ∨ (t'.scope o).owns name = true) :
    t.GrowsIn D (t'.bind o name ⟨v, false⟩) := by
  refine ⟨?_, fun i hi => ?_, fun i hi hD => ?_⟩
  · rw [size_bind]
    exact h.size
  -- in the scope that gets the binding the name is no constant, and the other scopes are as they
  -- were
  · rw [scope_bind]
    split
    · next hio =>
      rw [hio.1] at hname
      exact (h.grows i hi).bind hname
    · exact h.grows i hi
  · rw [scope_bind]
    split
    · next hio =>
      rw [hio.1] at hname ho
      exact (h.keeps i hi hD).bind hname ((ho hi).resolve_left hD)
    · exact h.keeps i hi hD

end ScopeTree

/-! ### The evaluator -/

/-- Code runs in the scopes that satisfy `D` and in those that it makes itself; nothing is asked of
values. -/
def namesRealm (start : ScopeTree) (D : ScopeId → Prop) : Realm where
  start := .empty
  Region _ := True
  Val _ := True
  Scope _ := True
  Here s := D s ∨ start.size ≤ s
  Body _ := True
  Fails _ := True
  Tree := start.GrowsIn D
  region_of_le _ := trivial
  val_plain _ := trivial
  val_ref _ := Iff.rfl
  val_function := by simp
  val_lambda := Iff.rfl
  here_scope _ := trivial
  fails_of_proper _ := trivial
  fails_of_body _ _ _ := trivial
  lookup _ _ _ := trivial
  addChild ht _ := ⟨ht.addChild, .inr ht.size⟩
  -- a declaration is inside; an assignment goes to a scope that has the name
  declare ht hs _ ho := by
    refine ht.bind (ScopeTree.find?_ne_of_declareIn ho) fun hlt => .inl ?_
    rw [ScopeTree.eq_of_declareIn ho] at hlt ⊢
    exact hs.resolve_right (Nat.not_le.2 hlt)
  assign ht _ _ ho := by
    obtain ⟨howns, hvariable⟩ := ScopeTree.owns_of_assignIn ho
    exact ht.bind hvariable fun _ => .inr howns

theorem namesRealm.growsIn {st : State} {D : ScopeId → Prop} {α : Type} {Q : Unit → α → Prop}
    {x : Eval α} (hx : (namesRealm st.scopes D).regime.Comp () Q x) (b : Bounds) :
    st.scopes.GrowsIn D (x b st).2.scopes := by
  have hheap : (namesRealm st.scopes D).Keeps st.heap :=
    ⟨Nat.zero_le _, fun _ _ _ _ => ⟨fun _ _ => trivial, fun _ _ => ⟨trivial, trivial⟩⟩,
      fun _ hr => absurd trivial hr⟩
  exact (Realm.comp_run hx b hheap (.refl _)).2.1

/-- **Names are declared in the scope at hand.**  Of the scopes that are there before, evaluating an
expression, a statement or statements adds names to none but the scope it takes place in, however it
ends.  A call and the branch of a conditional add names to none of them.  No scope loses a name, and
its constants and the scopes around it stay the same. -/
theorem evaluation_names (n : Nat) (b : Bounds) (st : State) :
    (∀ s e, st.scopes.GrowsIn (· = s) (evalExpr n s e b st).2.scopes) ∧
    (∀ s stmt, st.scopes.GrowsIn (· = s) (evalStmt n s stmt b st).2.scopes) ∧
    (∀ s body, st.scopes.GrowsIn (· = s) (evalBlock n s body b st).2.scopes) ∧
    (∀ v vs, st.scopes.GrowsIn (fun _ => False) (callValue n v vs b st).2.scopes) ∧
    (∀ s body, st.scopes.GrowsIn (fun _ => False) (evalBranch n s body b st).2.scopes) ∧
    (∀ s clauses, evalStmt (n + 1) s (.conditional clauses) =
      runClauses (fun c => do checkCondition "if" (← evalExpr n s c)) (evalBranch n s)
        clauses) := by
  have hrules : ∀ D, (namesRealm st.scopes D).logic.Evaluates n := fun _ => Logic.evaluates _ n
  refine ⟨fun s e => ?_, fun s stmt => ?_, fun s body => ?_, fun v vs => ?_, fun s body => ?_,
    evalStmt_conditional n⟩
  · exact namesRealm.growsIn ((hrules (· = s)).expr (w := ()) (.inl rfl)) b
  · exact namesRealm.growsIn ((hrules (· = s)).stmt (w := ()) (.inl rfl) fun _ _ => trivial) b
  · exact namesRealm.growsIn ((hrules (· = s)).block (w := ()) (.inl rfl) fun _ _ _ _ => trivial) b
  · exact namesRealm.growsIn ((hrules _).call (w := ()) trivial fun _ _ => trivial) b
  · exact namesRealm.growsIn ((hrules _).branch (w := ()) trivial fun _ _ _ _ => trivial) b

-- an assignment in a branch changes the variable outside, a declaration does not show there
example :
    let t := ((Session.new 8).run 60 "x = 1; if true do x = 2; let y = 3 end").2.state.scopes
    (t.scope globalScope).owns "x" = true ∧ (t.scope globalScope).owns "y" = false := by
  decide +kernel

end AtomScript
