import AtomScript.Scope
import Mathlib.Logic.Basic

/-!
# Scope trees

What each operation does to the bindings and to the chains: `bind` changes one slot of one scope and
no chain; a new scope is bare, and its chain is that of the scope around it with itself in front.

`ScopeTree.resolve?_eq_of_mem` is how resolution is computed in practice: of the scopes on a chain,
the one that owns the name answers, if no other does.
-/

namespace AtomScript

namespace Scope

variable (s : Scope) (name : String) (b : Binding)

/-- A new scope has no names. -/
@[simp] theorem find?_bare (outer : List ScopeId) : (Scope.bare outer).find? name = none := by
  unfold Scope.find? Scope.bare
  exact Std.TreeMap.getElem?_emptyc

/-- After a binding the name has it, and other names what they had. -/
theorem find?_bind (other : String) :
    (s.bind name b).find? other = if name = other then some b else s.find? other := by
  unfold Scope.find? Scope.bind
  rw [Std.TreeMap.getElem?_insert]
  simp

/-- A scope owns the names it has a binding for. -/
theorem owns_eq : s.owns name = (s.find? name).isSome := by
  unfold Scope.owns Scope.find?
  exact Std.TreeMap.contains_eq_isSome_getElem?

end Scope

namespace ScopeTree

variable (t : ScopeTree)

/-! ### Reading a tree after an operation -/

/-- One scope more. -/
@[simp] theorem size_push (s : Scope) : (t.push s).size = t.size + 1 := by
  unfold push size
  exact Array.size_push s

/-- A child is one scope more. -/
@[simp] theorem size_addChild (s : ScopeId) : (t.addChild s).size = t.size + 1 :=
  t.size_push _

/-- A binding adds no scope. -/
@[simp] theorem size_bind (s : ScopeId) (name : String) (b : Binding) :
    (t.bind s name b).size = t.size := by
  unfold bind size
  exact Array.size_modify

/-- The scopes after one more is added. -/
theorem scope_push (s : Scope) (i : ScopeId) :
    (t.push s).scope i = if i = t.size then s else t.scope i := by
  unfold push scope size
  rw [Array.getD_eq_getD_getElem?, Array.getD_eq_getD_getElem?, Array.getElem?_push]
  split <;> rfl

/-- Outside the tree there are only bare scopes. -/
theorem scope_of_size_le {i : ScopeId} (h : t.size ≤ i) : t.scope i = .bare [] := by
  unfold scope
  rw [Array.getD_eq_getD_getElem?, Array.getElem?_eq_none h]
  rfl

/-- Binding a name changes the scope it is bound in, if there is such a scope. -/
theorem scope_bind (s : ScopeId) (name : String) (b : Binding) (i : ScopeId) :
    (t.bind s name b).scope i =
      if s = i ∧ i < t.size then (t.scope i).bind name b else t.scope i := by
  unfold bind scope size
  rw [Array.getD_eq_getD_getElem?, Array.getD_eq_getD_getElem?, Array.getElem?_modify]
  -- only a scope of the tree can be bound in
  by_cases hs : s = i
  · by_cases hi : i < t.scopes.size
    · rw [if_pos hs, if_pos ⟨hs, hi⟩, Array.getElem?_eq_getElem hi]
      rfl
    · rw [if_pos hs, if_neg fun h => hi h.2, Array.getElem?_eq_none (Nat.le_of_not_lt hi)]
      rfl
  · rw [if_neg hs, if_neg fun h => hs h.1]

/-- The bindings of all scopes after one is bound. -/
theorem find?_scope_bind (s : ScopeId) (name : String) (b : Binding) (i : ScopeId)
    (other : String) :
    ((t.bind s name b).scope i).find? other =
      if (s = i ∧ i < t.size) ∧ name = other then some b else (t.scope i).find? other := by
  rw [scope_bind]
  by_cases hs : s = i ∧ i < t.size
  · rw [if_pos hs, Scope.find?_bind]
    by_cases hn : name = other
    · rw [if_pos hn, if_pos ⟨hs, hn⟩]
    · rw [if_neg hn, if_neg fun h => hn h.2]
  · rw [if_neg hs, if_neg fun h => hs h.1]

/-- A binding leaves the way outwards. -/
@[simp] theorem chain_bind (s : ScopeId) (name : String) (b : Binding) (i : ScopeId) :
    (t.bind s name b).chain i = t.chain i := by
  unfold chain
  rw [scope_bind]
  split <;> rfl

/-- A new scope leaves the chains of the others as they are. -/
theorem chain_addChild (s i : ScopeId) :
    (t.addChild s).chain i = if i = t.size then i :: t.chain s else t.chain i := by
  unfold addChild
  change i :: ((t.push _).scope i).outer = _
  rw [scope_push]
  split <;> rfl

/-! ### Resolution -/

variable {t}

/-- **One owner answers.**  A name that a scope on the chain owns, and no other scope of the tree,
means the binding of that scope. -/
theorem resolve?_eq_of_mem {s owner : ScopeId} {name : String} {b : Binding}
    (hmem : owner ∈ t.chain s) (hfind : (t.scope owner).find? name = some b)
    (hother : ∀ i, i ≠ owner → (t.scope i).find? name = none) :
    t.resolve? s name = some b := by
  unfold resolve?
  -- by induction along the chain: the scopes in front of the owner do not answer
  generalize t.chain s = chain at hmem
  induction chain with
  | nil => cases hmem
  | cons i chain ih =>
    rw [List.findSome?_cons]
    by_cases hi : i = owner
    · rw [hi, hfind]
    · rw [hother i hi]
      refine ih ?_
      rcases List.mem_cons.1 hmem with rfl | hmem
      · exact absurd rfl hi
      · exact hmem

/-- Resolving a name is looking it up in its owner. -/
theorem resolve?_eq_owner? (s : ScopeId) (name : String) :
    t.resolve? s name = (t.owner? s name).bind fun o => (t.scope o).find? name := by
  unfold resolve? owner?
  induction t.chain s with
  | nil => rfl
  | cons i chain ih =>
    rw [List.findSome?_cons, List.find?_cons, Scope.owns_eq]
    cases h : (t.scope i).find? name with
    | none => simpa using ih
    | some b => simp [h]

/-- The scope that is found to own a name owns it. -/
theorem owns_of_owner? {s o : ScopeId} {name : String} (h : t.owner? s name = some o) :
    (t.scope o).owns name = true := by
  unfold owner? at h
  simpa using List.find?_some h

/-! ### Where a name is bound -/

/-- An assignment binds the name in a scope on the chain. -/
theorem mem_chain_of_assignIn {s o : ScopeId} {name : String}
    (h : t.assignIn s name = .ok o) : o ∈ t.chain s := by
  unfold assignIn at h
  split at h
  · cases h
  · next o' ho =>
    split at h
    · cases h
    · cases h
      exact List.mem_of_find?_eq_some ho

/-! ### Failures -/

/-- A lookup fails with one error only. -/
theorem error_of_lookup {s : ScopeId} {name : String} {e : Error}
    (h : t.lookup s name = .error e) : e = .undefined name := by
  unfold lookup at h
  split at h
  · cases h
  · cases h
    rfl

/-- A declaration fails with one error only. -/
theorem error_of_declareIn {s : ScopeId} {name : String} {e : Error}
    (h : t.declareIn s name = .error e) : e = .constant name := by
  unfold declareIn at h
  split at h
  · cases h
    rfl
  · cases h

/-- An assignment fails because there is no such name or because it is constant. -/
theorem error_of_assignIn {s : ScopeId} {name : String} {e : Error}
    (h : t.assignIn s name = .error e) : e = .undefined name ∨ e = .constant name := by
  unfold assignIn at h
  split at h
  · cases h
    exact .inl rfl
  · split at h
    · cases h
      exact .inr rfl
    · cases h

/-! ### Successes -/

/-- A declaration binds the name in the scope itself. -/
theorem eq_of_declareIn {s o : ScopeId} {name : String}
    (h : t.declareIn s name = .ok o) : o = s := by
  unfold declareIn at h
  split at h
  · cases h
  · cases h
    rfl

/-- A declaration finds no constant of the name in the scope. -/
theorem find?_ne_of_declareIn {s o : ScopeId} {name : String}
    (h : t.declareIn s name = .ok o) (u : Value) : (t.scope o).find? name ≠ some ⟨u, true⟩ := by
  intro hfind
  rw [eq_of_declareIn h] at hfind
  -- the scope itself is the first on its chain, so the name would mean the constant
  have hconstant : t.isConstant s name = true := by
    unfold isConstant resolve? chain
    rw [List.findSome?_cons, hfind]
    rfl
  unfold declareIn at h
  rw [if_pos hconstant] at h
  cases h

/-- An assignment finds a variable of the name in the scope. -/
theorem owns_of_assignIn {s o : ScopeId} {name : String} (h : t.assignIn s name = .ok o) :
    (t.scope o).owns name = true ∧ ∀ u, (t.scope o).find? name ≠ some ⟨u, true⟩ := by
  unfold assignIn at h
  split at h
  · cases h
  · next o' hfind =>
    split at h
    · cases h
    · next hvariable =>
      cases h
      refine ⟨owns_of_owner? hfind, fun u hu => ?_⟩
      rw [hu] at hvariable
      exact hvariable rfl

/-! ### What is bound -/

/-- Every value that is bound in one of the scopes satisfies `V`. -/
def Binds (t : ScopeTree) (D : ScopeId → Prop) (V : Value → Prop) : Prop :=
  ∀ i, D i → ∀ name b, (t.scope i).find? name = some b → V b.value

section Binds

variable {D : ScopeId → Prop} {V : Value → Prop} {s : ScopeId} {name : String}

/-- A good binding keeps the condition on the bindings. -/
theorem Binds.bind (h : t.Binds D V) {b : Binding} (hb : V b.value) :
    (t.bind s name b).Binds D V := by
  intro i hi other c hc
  rw [find?_scope_bind] at hc
  split at hc
  · cases hc
    exact hb
  · exact h i hi other c hc

/-- A new scope keeps the condition on the bindings. -/
theorem Binds.addChild (h : t.Binds D V) : (t.addChild s).Binds D V := by
  intro i hi name b hb
  unfold ScopeTree.addChild at hb
  rw [scope_push] at hb
  -- a new scope has no bindings
  split at hb
  · rw [Scope.find?_bare] at hb
    cases hb
  · exact h i hi name b hb

/-- What is looked up is a value with the condition. -/
theorem Binds.lookup (h : t.Binds D V) (hs : ∀ i ∈ t.chain s, D i) {v : Value}
    (hv : t.lookup s name = .ok v) : V v := by
  unfold ScopeTree.lookup at hv
  split at hv
  · next b hb =>
    cases hv
    unfold resolve? at hb
    obtain ⟨i, hi, hfind⟩ := List.exists_of_findSome?_eq_some hb
    exact h i (hs i hi) name b hfind
  · cases hv

end Binds

end ScopeTree

end AtomScript
