import AtomScript.Proofs.Scope.Basic

/-!
# Resolution from scope to scope

A scope keeps the scopes around it as a list.  In a tree in which every scope was made inside an
earlier one (`ScopeTree.Linked`), the list holds what one meets on the way outwards, from each scope
to the one directly around it, and the owner of a name is the first scope on this way that has it
(`ScopeTree.Nearest`, `ScopeTree.Linked.owner?_eq_some_iff`).

`ScopeTree.SameBut` says of two trees that they differ at certain names of certain scopes at most.
-/

namespace AtomScript.ScopeTree

variable {t t' u : ScopeTree} {s p o : ScopeId} {name other : String} {b : Binding}
  {v : Value}

/-- Every scope is inside none, or was made inside an earlier one and goes on with its chain. -/
def Linked (t : ScopeTree) : Prop :=
  ∀ s < t.size, (t.scope s).outer = [] ∨ ∃ p < s, (t.scope s).outer = t.chain p

/-- On the way outwards from `s`, the first scope that owns the name is `o`. -/
inductive Nearest (t : ScopeTree) (name : String) : ScopeId → ScopeId → Prop where
  | here {s : ScopeId} : (t.scope s).owns name = true → Nearest t name s s
  | around {s p o : ScopeId} : (t.scope s).owns name = false → t.parent? s = some p →
    Nearest t name p o → Nearest t name s o

/-! ### Links -/

theorem outer_bind (t : ScopeTree) (o : ScopeId) (name : String) (b : Binding) (i : ScopeId) :
    ((t.bind o name b).scope i).outer = (t.scope i).outer := by
  rw [scope_bind]
  split <;> rfl

theorem linked_addRoot_empty : empty.addRoot.Linked := by
  intro s hs
  have hzero : s = 0 := Nat.lt_one_iff.1 hs
  exact .inl (hzero ▸ rfl)

namespace Linked

variable (ht : t.Linked)

include ht

theorem bind (o : ScopeId) (name : String) (b : Binding) : (t.bind o name b).Linked := by
  intro s hs
  rw [size_bind] at hs
  simp only [outer_bind, chain_bind]
  exact ht s hs

theorem addChild (hp : p < t.size) : (t.addChild p).Linked := by
  intro s hs
  rw [size_addChild] at hs
  have hchain : ∀ i < t.size, (t.addChild p).chain i = t.chain i := fun i hi => by
    rw [chain_addChild, if_neg (Nat.ne_of_lt hi)]
  -- the new scope is the last one, and the scope around it is any other
  by_cases hnew : s = t.size
  · refine .inr ⟨p, hnew ▸ hp, ?_⟩
    have hself := t.chain_addChild p s
    rw [if_pos hnew] at hself
    rw [hchain p hp]
    exact (List.cons.inj hself).2
  · have hlt : s < t.size := by omega
    have houter : ((t.addChild p).scope s).outer = (t.scope s).outer :=
      (List.cons.inj (hchain s hlt)).2
    rw [houter]
    refine (ht s hlt).imp_right fun ⟨q, hq, hqs⟩ => ⟨q, hq, ?_⟩
    rw [hqs, hchain q (Nat.lt_trans hq hlt)]

theorem parent_lt (hs : s < t.size) (hp : t.parent? s = some p) : p < s := by
  unfold parent? at hp
  rcases ht s hs with hroot | ⟨q, hq, hqs⟩
  · rw [hroot] at hp
    cases hp
  · rw [hqs] at hp
    cases hp
    exact hq

/-- **One step outwards**: a name that the scope does not own is left to the scope around it. -/
theorem owner?_eq (hs : s < t.size) (name : String) :
    t.owner? s name =
      if (t.scope s).owns name then some s else (t.parent? s).bind fun p => t.owner? p name := by
  unfold owner? parent?
  rw [chain, List.find?_cons]
  rcases ht s hs with hroot | ⟨p, -, hp⟩
  · rw [hroot]
    cases (t.scope s).owns name <;> rfl
  · rw [hp]
    cases (t.scope s).owns name <;> rfl

/-- **The owner is the nearest scope** that owns the name. -/
theorem owner?_eq_some_iff (hs : s < t.size) :
    t.owner? s name = some o ↔ t.Nearest name s o := by
  -- by induction on the scope, for the scope around it is an earlier one
  induction s using Nat.strongRecOn with
  | ind s ih =>
    rw [ht.owner?_eq hs]
    cases howns : (t.scope s).owns name with
    | true =>
      refine ⟨fun h => ?_, fun h => ?_⟩
      · cases h
        exact .here howns
      · cases h with
        | here _ => rfl
        | around hnot _ _ => rw [howns] at hnot; cases hnot
    | false =>
      rw [if_neg Bool.false_ne_true, Option.bind_eq_some_iff]
      refine ⟨fun ⟨p, hp, hop⟩ => ?_, fun h => ?_⟩
      · have hlt := ht.parent_lt hs hp
        exact .around howns hp ((ih p hlt (Nat.lt_trans hlt hs)).1 hop)
      · cases h with
        | here h => rw [howns] at h; cases h
        | around _ hp hop =>
          have hlt := ht.parent_lt hs hp
          exact ⟨_, hp, (ih _ hlt (Nat.lt_trans hlt hs)).2 hop⟩

theorem nearest_lt_size (hs : s < t.size) (ho : t.Nearest name s o) : o < t.size := by
  induction ho with
  | here _ => exact hs
  | around _ hp _ ih => exact ih (Nat.lt_trans (ht.parent_lt hs hp) hs)

/-- A name means what its nearest owner binds it to. -/
theorem resolve?_eq_some_iff (hs : s < t.size) :
    t.resolve? s name = some b ↔ ∃ o, t.Nearest name s o ∧ (t.scope o).find? name = some b := by
  simp only [resolve?_eq_owner?, Option.bind_eq_some_iff, ht.owner?_eq_some_iff hs]

end Linked

theorem lookup_eq_ok_iff :
    t.lookup s name = .ok v ↔ ∃ b, t.resolve? s name = some b ∧ b.value = v := by
  unfold lookup
  cases t.resolve? s name with
  | none => simp
  | some b => simp

/-! ### Resolution after a binding -/

theorem resolve?_bind_of_ne (hne : name ≠ other) :
    (t.bind o name b).resolve? s other = t.resolve? s other := by
  unfold resolve?
  rw [chain_bind]
  congr 1
  funext i
  rw [find?_scope_bind, if_neg fun h => hne h.2]

/-- A name that is bound in the scope itself means this binding. -/
theorem resolve?_bind_self (hs : s < t.size) :
    (t.bind s name b).resolve? s name = some b := by
  unfold resolve?
  rw [chain_bind, chain, List.findSome?_cons, find?_scope_bind, if_pos ⟨⟨rfl, hs⟩, rfl⟩]

/-- A name that is bound in its owner means this binding. -/
theorem resolve?_bind_owner (ho : t.owner? s name = some o) (hlt : o < t.size) :
    (t.bind o name b).resolve? s name = some b := by
  obtain ⟨howns, inner, outer, hchain, hinner⟩ := List.find?_eq_some_iff_append.1 ho
  -- the scopes in front of the owner do not own the name, and still do not
  have hnone : ∀ i ∈ inner, ((t.bind o name b).scope i).find? name = none := by
    intro i hi
    have hnot : (t.scope i).owns name = false := by simpa using hinner i hi
    have hne : o ≠ i := by
      rintro rfl
      rw [howns] at hnot
      cases hnot
    rw [find?_scope_bind, if_neg fun h => hne h.1.1]
    rwa [Scope.owns_eq, Option.isSome_eq_false_iff, Option.isNone_iff_eq_none] at hnot
  unfold resolve?
  rw [chain_bind, hchain, List.findSome?_append, List.findSome?_eq_none_iff.2 hnone,
    Option.none_or, List.findSome?_cons, find?_scope_bind, if_pos ⟨⟨rfl, hlt⟩, rfl⟩]

/-! ### What stays the same -/

/-- The trees have the same scopes with the same links, and the same bindings of all names in all
scopes but those that satisfy `P`. -/
structure SameBut (P : ScopeId → String → Prop) (t t' : ScopeTree) : Prop where
  size : t'.size = t.size
  outer : ∀ i, (t'.scope i).outer = (t.scope i).outer
  find? : ∀ i name, ¬ P i name → (t'.scope i).find? name = (t.scope i).find? name

variable {P : ScopeId → String → Prop}

theorem SameBut.refl (t : ScopeTree) : t.SameBut P t :=
  ⟨rfl, fun _ => rfl, fun _ _ _ => rfl⟩

theorem SameBut.mono {Q : ScopeId → String → Prop} (h : t.SameBut P t')
    (hPQ : ∀ i name, P i name → Q i name) : t.SameBut Q t' :=
  ⟨h.size, h.outer, fun i name hi => h.find? i name (mt (hPQ i name) hi)⟩

theorem SameBut.trans (h : t.SameBut P t') (h' : t'.SameBut P u) : t.SameBut P u :=
  ⟨h'.size.trans h.size, fun i => (h'.outer i).trans (h.outer i),
    fun i name hi => (h'.find? i name hi).trans (h.find? i name hi)⟩

/-- One more name is bound, where trees may differ. -/
theorem SameBut.bind (h : t.SameBut P t') (ho : P o name) : t.SameBut P (t'.bind o name b) where
  size := (t'.size_bind o name b).trans h.size
  outer i := (t'.outer_bind o name b i).trans (h.outer i)
  find? i other hi := by
    have hne : ¬ ((o = i ∧ i < t'.size) ∧ name = other) := by
      rintro ⟨⟨rfl, -⟩, rfl⟩
      exact hi ho
    rw [find?_scope_bind, if_neg hne]
    exact h.find? i other hi

end AtomScript.ScopeTree
