import AtomScript.Eval.Monad
import AtomScript.Proofs.Scope.Resolution
import Mathlib.Logic.Relation

/-!
# Histories of scope trees

A tree of scopes is built by operations, one after the other, each on any of its scopes: making a
scope inside it, declaring a variable or a constant, assigning (`ScopeTree.Operation`).  A failed
operation leaves the tree as it was.

Whatever the history, an assignment goes by the nearest owner of the name and a declaration by what
the name means, and both see the same constants (`ScopeTree.Assigns`, `ScopeTree.Declares`).  An
operation never binds a name in a scope that has it as a constant (`ScopeTree.Step.cases`), so a
constant stays what it is (`ScopeTree.find?_constant_of_history`).
-/

namespace AtomScript

/-- The ending of an operation on the scopes of a state. -/
def State.settle (st : State) : Except Error ScopeTree → Ending Unit × State
  | .ok t => (.value (), { st with scopes := t })
  | .error e => (.error e, st)

/-- In the course of a program, an assignment is the operation on the scopes of the state. -/
theorem State.assign_eq_settle (st : State) (limit : Nat) (s : ScopeId) (name : String)
    (v : Value) :
    Eval.assign s name v ⟨limit, none⟩ st = st.settle (st.scopes.assign s name v) := by
  unfold Eval.assign Eval.act ScopeTree.assign
  dsimp only
  cases st.scopes.assignIn s name <;> rfl

theorem State.declare_eq_settle (st : State) (limit : Nat) (s : ScopeId) (name : String)
    (v : Value) :
    Eval.declare s name v ⟨limit, none⟩ st = st.settle (st.scopes.declare s name v false) := by
  unfold Eval.declare Eval.act ScopeTree.declare
  dsimp only
  cases st.scopes.declareIn s name <;> rfl

namespace ScopeTree

variable {t t' u : ScopeTree} {s i : ScopeId} {name : String} {c : Value}

/-! ### Operations -/

/-- What can be done to a tree of scopes. -/
inductive Operation where
  | child (s : ScopeId)
  | declare (s : ScopeId) (name : String) (v : Value) (constant : Bool)
  | assign (s : ScopeId) (name : String) (v : Value)

/-- The scope that the operation is done to. -/
def Operation.target : Operation → ScopeId
  | child s => s
  | declare s _ _ _ => s
  | assign s _ _ => s

/-- Does the operation, unless it fails. -/
def perform (t : ScopeTree) : Operation → Except Error ScopeTree
  | .child s => .ok (t.addChild s)
  | .declare s name v constant => t.declare s name v constant
  | .assign s name v => t.assign s name v

/-- The tree that the operation leaves behind. -/
def after (t : ScopeTree) (op : Operation) : ScopeTree :=
  match t.perform op with
  | .ok t' => t'
  | .error _ => t

theorem after_of_ok {op : Operation} (h : t.perform op = .ok t') : t.after op = t' := by
  unfold after
  rw [h]

theorem after_of_error {op : Operation} {e : Error} (h : t.perform op = .error e) :
    t.after op = t := by
  unfold after
  rw [h]

/-- An operation on a scope of the tree leads to the other tree. -/
def Step (t t' : ScopeTree) : Prop :=
  ∃ op : Operation, op.target < t.size ∧ t' = t.after op

/-- Operations on scopes of the tree, one after the other, lead to the other tree. -/
def History : ScopeTree → ScopeTree → Prop := Relation.ReflTransGen Step

/-- **What a declaration does.** -/
theorem declare_cases (t : ScopeTree) (s : ScopeId) (name : String) (v : Value) (constant : Bool) :
    (t.isConstant s name = true ∧ t.declare s name v constant = .error (.constant name)) ∨
    (t.isConstant s name = false ∧
      t.declare s name v constant = .ok (t.bind s name ⟨v, constant⟩)) := by
  unfold declare declareIn
  cases t.isConstant s name with
  | true => exact .inl ⟨rfl, rfl⟩
  | false => exact .inr ⟨rfl, rfl⟩

/-- **What an assignment does.** -/
theorem assign_cases (t : ScopeTree) (s : ScopeId) (name : String) (v : Value) :
    (t.owner? s name = none ∧ t.assign s name v = .error (.undefined name)) ∨
    (∃ o w, t.owner? s name = some o ∧ (t.scope o).find? name = some ⟨w, true⟩ ∧
      t.assign s name v = .error (.constant name)) ∨
    (∃ o w, t.owner? s name = some o ∧ (t.scope o).find? name = some ⟨w, false⟩ ∧
      t.assign s name v = .ok (t.bind o name ⟨v, false⟩)) := by
  unfold assign assignIn
  cases ho : t.owner? s name with
  | none => exact .inl ⟨rfl, rfl⟩
  | some o =>
    -- the owner has a binding, which is constant or not
    have howns := owns_of_owner? ho
    rw [Scope.owns_eq, Option.isSome_iff_exists] at howns
    obtain ⟨⟨w, constant⟩, hfind⟩ := howns
    cases constant with
    | true => exact .inr (.inl ⟨o, w, rfl, hfind, by simp only [hfind]; rfl⟩)
    | false => exact .inr (.inr ⟨o, w, rfl, hfind, by simp only [hfind]; rfl⟩)

/-- **What a step can do**: nothing, make a scope, or bind a name in a scope that does not have it
as a constant. -/
theorem Step.cases (h : t.Step t') :
    t' = t ∨ (∃ s < t.size, t' = t.addChild s) ∨
      ∃ o name b, (∀ c, (t.scope o).find? name ≠ some ⟨c, true⟩) ∧ t' = t.bind o name b := by
  obtain ⟨op, htarget, rfl⟩ := h
  -- a failed operation leaves the tree, and each of the others is one of the three
  cases op with
  | child s => exact .inr (.inl ⟨s, htarget, rfl⟩)
  | declare s name v constant =>
    rcases t.declare_cases s name v constant with ⟨-, hfails⟩ | ⟨hvariable, hok⟩
    · exact .inl (after_of_error hfails)
    · have hin : t.declareIn s name = .ok s := if_neg (ne_true_of_eq_false hvariable)
      exact .inr (.inr ⟨s, name, _, find?_ne_of_declareIn hin, after_of_ok hok⟩)
  | assign s name v =>
    rcases t.assign_cases s name v with ⟨-, hfails⟩ | ⟨o, w, -, -, hfails⟩ | ⟨o, w, -, hfind, hok⟩
    · exact .inl (after_of_error hfails)
    · exact .inl (after_of_error hfails)
    · exact .inr (.inr ⟨o, name, _, by simp [hfind], after_of_ok hok⟩)

/-! ### What lasts -/

theorem Linked.of_step (ht : t.Linked) (h : t.Step t') : t'.Linked := by
  obtain rfl | ⟨s, hs, rfl⟩ | ⟨o, name, b, -, rfl⟩ := h.cases
  · exact ht
  · exact ht.addChild hs
  · exact ht.bind o name b

theorem Linked.of_history (ht : t.Linked) (h : t.History u) : u.Linked := by
  induction h with
  | refl => exact ht
  | tail _ hstep ih => exact ih.of_step hstep

/-- A step does not touch a constant. -/
theorem find?_constant_of_step (hc : (t.scope i).find? name = some ⟨c, true⟩) (h : t.Step t') :
    (t'.scope i).find? name = some ⟨c, true⟩ := by
  obtain rfl | ⟨s, hs, rfl⟩ | ⟨o, other, b, hvariable, rfl⟩ := h.cases
  · exact hc
  · -- a bare scope has no constant, so this one is not the new scope
    have hi : i ≠ t.size := by
      rintro rfl
      rw [t.scope_of_size_le (Nat.le_refl _), Scope.find?_bare] at hc
      cases hc
    unfold addChild
    rwa [scope_push, if_neg hi]
  · have hne : ¬ ((o = i ∧ i < t.size) ∧ other = name) := by
      rintro ⟨⟨rfl, -⟩, rfl⟩
      exact hvariable c hc
    rwa [find?_scope_bind, if_neg hne]

/-- **Constants last**, whatever is done to the tree. -/
theorem find?_constant_of_history (hc : (t.scope i).find? name = some ⟨c, true⟩)
    (h : t.History u) : (u.scope i).find? name = some ⟨c, true⟩ := by
  induction h with
  | refl => exact hc
  | tail _ hstep ih => exact find?_constant_of_step ih hstep

/-! ### When an operation succeeds, and what it does then -/

/-- The assignment goes by the nearest owner of the name. -/
structure Assigns (t : ScopeTree) (s : ScopeId) (name : String) (v : Value) : Prop where
  succeeds : (∃ t', t.assign s name v = .ok t') ↔
    ∃ o w, t.Nearest name s o ∧ (t.scope o).find? name = some ⟨w, false⟩
  undefined : t.assign s name v = .error (.undefined name) ↔ ∀ o, ¬ t.Nearest name s o
  refused : t.assign s name v = .error (.constant name) ↔
    ∃ o w, t.Nearest name s o ∧ (t.scope o).find? name = some ⟨w, true⟩
  effect : ∀ t' o, t.assign s name v = .ok t' → t.Nearest name s o →
    t.SameBut (fun i other => i = o ∧ other = name) t' ∧
      (t'.scope o).find? name = some ⟨v, false⟩ ∧ t'.lookup s name = .ok v

/-- The declaration goes by what the name means. -/
structure Declares (t : ScopeTree) (s : ScopeId) (name : String) (v : Value) (constant : Bool) :
    Prop where
  succeeds : (∃ t', t.declare s name v constant = .ok t') ↔
    ∀ o b, t.Nearest name s o → (t.scope o).find? name = some b → b.constant = false
  refused : t.declare s name v constant = .error (.constant name) ↔
    ∃ o w, t.Nearest name s o ∧ (t.scope o).find? name = some ⟨w, true⟩
  effect : ∀ t', t.declare s name v constant = .ok t' →
    t.SameBut (fun i other => i = s ∧ other = name) t' ∧
      (t'.scope s).find? name = some ⟨v, constant⟩ ∧ t'.lookup s name = .ok v

namespace Linked

variable (ht : t.Linked) (hs : s < t.size)

include ht hs

theorem isConstant_iff (name : String) : t.isConstant s name = true ↔
    ∃ o w, t.Nearest name s o ∧ (t.scope o).find? name = some ⟨w, true⟩ := by
  unfold isConstant
  rw [Option.any_eq_true]
  simp only [ht.resolve?_eq_some_iff hs]
  refine ⟨fun ⟨⟨w, _⟩, ⟨o, ho, hfind⟩, hconstant⟩ => ?_, fun ⟨o, w, ho, hfind⟩ => ?_⟩
  · cases hconstant
    exact ⟨o, w, ho, hfind⟩
  · exact ⟨⟨w, true⟩, ⟨o, ho, hfind⟩, rfl⟩

theorem assigns (name : String) (v : Value) : t.Assigns s name v := by
  have howner : ∀ o, t.owner? s name = some o ↔ t.Nearest name s o := fun o =>
    ht.owner?_eq_some_iff hs
  -- no owner, an owner with a constant, or an owner with a variable
  rcases t.assign_cases s name v with
    ⟨hnone, heq⟩ | ⟨o, w, ho, hfind, heq⟩ | ⟨o, w, ho, hfind, heq⟩
  · constructor
    all_goals simp [heq, ← howner, hnone]
  · constructor
    all_goals simp [heq, ← howner, ho, hfind]
  · have hlt : o < t.size := ht.nearest_lt_size hs ((howner o).1 ho)
    refine ⟨?_, ?_, ?_, fun t' o' hok ho' => ?_⟩
    · simp [heq, ← howner, ho, hfind]
    · simp [heq, ← howner, ho]
    · simp [heq, ← howner, ho, hfind]
    · rw [← howner, ho] at ho'
      rw [heq] at hok
      cases ho'
      cases hok
      refine ⟨(SameBut.refl t).bind ⟨rfl, rfl⟩, ?_,
        lookup_eq_ok_iff.2 ⟨_, resolve?_bind_owner ho hlt, rfl⟩⟩
      rw [find?_scope_bind, if_pos ⟨⟨rfl, hlt⟩, rfl⟩]

theorem declares (name : String) (v : Value) (constant : Bool) :
    t.Declares s name v constant := by
  have hconstant := ht.isConstant_iff hs name
  -- either a constant is in sight, or the scope gets the binding
  rcases t.declare_cases s name v constant with ⟨hyes, heq⟩ | ⟨hno, heq⟩
  · obtain ⟨o, w, ho, hfind⟩ := hconstant.1 hyes
    refine ⟨?_, ?_, ?_⟩
    · simp only [heq, reduceCtorEq, exists_const, false_iff]
      exact fun h => absurd (h o _ ho hfind) (by simp)
    · exact iff_of_true heq ⟨o, w, ho, hfind⟩
    · simp [heq]
  · refine ⟨?_, ?_, ?_⟩
    · refine iff_of_true ⟨_, heq⟩ fun o b ho hfind => ?_
      obtain ⟨w, constant⟩ := b
      cases constant with
      | false => rfl
      | true =>
        rw [hconstant.2 ⟨o, w, ho, hfind⟩] at hno
        cases hno
    · rw [heq, ← hconstant, hno]
      simp
    · rintro t' hok
      rw [heq] at hok
      cases hok
      refine ⟨(SameBut.refl t).bind ⟨rfl, rfl⟩, ?_,
        lookup_eq_ok_iff.2 ⟨_, resolve?_bind_self hs, rfl⟩⟩
      rw [find?_scope_bind, if_pos ⟨⟨rfl, hs⟩, rfl⟩]

end Linked

/-- **Scopes over any history.**  In a tree built from one scope by any operations in any order, an
assignment and a declaration succeed or fail as the nearest owner of the name says, and change
nothing but the one binding; one that fails changes nothing, and neither does it in the course of a
program; and a constant of a scope never changes again, whatever is done to the tree. -/
theorem operations_over_history (t : ScopeTree) (ht : empty.addRoot.History t) (s : ScopeId)
    (hs : s < t.size) (name : String) (v : Value) :
    t.Assigns s name v ∧ (∀ constant, t.Declares s name v constant) ∧
    (∀ op e, t.perform op = .error e → t.after op = t) ∧
    (∀ limit st, st.scopes = t →
      Eval.assign s name v ⟨limit, none⟩ st = st.settle (t.assign s name v) ∧
      Eval.declare s name v ⟨limit, none⟩ st = st.settle (t.declare s name v false)) ∧
    (∀ i c u, (t.scope i).find? name = some ⟨c, true⟩ → t.History u →
      (u.scope i).find? name = some ⟨c, true⟩) ∧
    (Error.undefined name).category = "NameError" ∧
    (Error.constant name).category = "ConstAssignmentError" := by
  have hlinked := linked_addRoot_empty.of_history ht
  refine ⟨hlinked.assigns hs name v, hlinked.declares hs name v, fun op e => after_of_error,
    fun limit st hst => ?_, fun i c u => find?_constant_of_history, rfl, rfl⟩
  subst hst
  exact ⟨st.assign_eq_settle limit s name v, st.declare_eq_settle limit s name v⟩

/-- A tree in which a scope has hidden a name before the scope around it made it a constant. -/
def hiddenConstant : ScopeTree :=
  [Operation.child 0, .declare 1 "x" (.atom "inner") false, .declare 0 "x" (.atom "outer") true,
    .child 1].foldl after empty.addRoot

/-- From inside, the name can be assigned and declared; outside it is a constant, and remains one
after the assignment. -/
theorem operations_over_history_hidden :
    empty.addRoot.History hiddenConstant ∧ 2 < hiddenConstant.size ∧
    ∃ t', hiddenConstant.assign 2 "x" .null = .ok t' ∧ t'.lookup 2 "x" = .ok .null ∧
      (t'.scope 1).find? "x" = some ⟨.null, false⟩ ∧
      (t'.scope 0).find? "x" = some ⟨.atom "outer", true⟩ := by
  -- the outer constant is declared after the inner variable that hides it
  have hhistory : empty.addRoot.History hiddenConstant :=
    .tail (.tail (.tail (.tail .refl ⟨.child 0, by decide, rfl⟩)
      ⟨.declare 1 "x" (.atom "inner") false, by decide +kernel, rfl⟩)
      ⟨.declare 0 "x" (.atom "outer") true, by decide +kernel, rfl⟩)
      ⟨.child 1, by decide +kernel, rfl⟩
  have hsize : 2 < hiddenConstant.size := by decide +kernel
  have hnearest : hiddenConstant.Nearest "x" 2 1 :=
    .around (by decide +kernel) (by decide +kernel) (.here (by decide +kernel))
  have hinner : (hiddenConstant.scope 1).find? "x" = some ⟨.atom "inner", false⟩ := by rfl
  have houter : (hiddenConstant.scope 0).find? "x" = some ⟨.atom "outer", true⟩ := by rfl
  obtain ⟨hassigns, -, -, -, hconstant, -⟩ :=
    operations_over_history hiddenConstant hhistory 2 hsize "x" .null
  obtain ⟨t', ht'⟩ := hassigns.succeeds.2 ⟨1, _, hnearest, hinner⟩
  obtain ⟨-, hfind, hlookup⟩ := hassigns.effect t' 1 ht' hnearest
  have hafter : hiddenConstant.after (.assign 2 "x" .null) = t' := after_of_ok ht'
  have hstep : hiddenConstant.Step t' := ⟨.assign 2 "x" .null, hsize, hafter.symm⟩
  exact ⟨hhistory, hsize, t', ht', hlookup, hfind, hconstant 0 _ t' houter (.tail .refl hstep)⟩

end ScopeTree

end AtomScript
