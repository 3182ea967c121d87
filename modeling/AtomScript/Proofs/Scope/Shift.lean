import AtomScript.Proofs.Heap.Shift
import AtomScript.Proofs.Scope.Listing

/-!
# Moved scopes

A scope tree and its shifted copy (`ScopeTree.Shifted`) resolve every name alike, take the same
bindings and list the same ones.  As with heaps, nothing is said of the scopes in front of the
shifted ones: no chain leads to them.
-/

namespace AtomScript

def Shift.binding (σ : Shift) (b : Binding) : Binding := { b with value := σ.value b.value }

namespace ScopeTree

/-- The second tree holds the scopes of the first one, shifted, behind scopes of any kind. -/
structure Shifted (σ : Shift) (t t' : ScopeTree) : Prop where
  size : t'.size = σ.scopes + t.size
  outer : ∀ s, (t'.scope (σ.scopes + s)).outer = (t.scope s).outer.map (σ.scopes + ·)
  find? : ∀ s name, (t'.scope (σ.scopes + s)).find? name = ((t.scope s).find? name).map σ.binding

namespace Shifted

variable {σ : Shift} {t t' : ScopeTree} (hs : t.Shifted σ t')

include hs

/-! ### Resolution -/

/-- The way outwards is shifted. -/
theorem chain (s : ScopeId) : t'.chain (σ.scopes + s) = (t.chain s).map (σ.scopes + ·) := by
  unfold ScopeTree.chain
  rw [hs.outer, List.map_cons]

/-- A shifted scope owns the same names. -/
theorem owns (s : ScopeId) (name : String) :
    (t'.scope (σ.scopes + s)).owns name = (t.scope s).owns name := by
  rw [Scope.owns_eq, Scope.owns_eq, hs.find?, Option.isSome_map]

/-- The scope that owns a name is shifted. -/
theorem owner? (s : ScopeId) (name : String) :
    t'.owner? (σ.scopes + s) name = (t.owner? s name).map (σ.scopes + ·) := by
  unfold ScopeTree.owner?
  rw [hs.chain, List.find?_map]
  congr 2
  funext o
  exact hs.owns o name

/-- The binding of a name is shifted. -/
theorem resolve? (s : ScopeId) (name : String) :
    t'.resolve? (σ.scopes + s) name = (t.resolve? s name).map σ.binding := by
  rw [resolve?_eq_owner?, resolve?_eq_owner?, hs.owner?]
  cases t.owner? s name with
  | none => rfl
  | some o => exact hs.find? o name

/-- A name has the shifted value, or none on both sides. -/
theorem lookup (s : ScopeId) (name : String) :
    t'.lookup (σ.scopes + s) name = (t.lookup s name).map σ.value := by
  unfold ScopeTree.lookup
  rw [hs.resolve?]
  cases t.resolve? s name with
  | none => rfl
  | some b => rfl

/-- The same names are known. -/
theorem contains (s : ScopeId) (name : String) :
    t'.contains (σ.scopes + s) name = t.contains s name := by
  unfold ScopeTree.contains
  rw [hs.chain, List.any_map]
  congr 1
  funext o
  exact hs.owns o name

/-- The same names are constant. -/
theorem isConstant (s : ScopeId) (name : String) :
    t'.isConstant (σ.scopes + s) name = t.isConstant s name := by
  unfold ScopeTree.isConstant
  rw [hs.resolve?, Option.any_map]
  rfl

/-- A declaration goes to the shifted scope, or fails alike. -/
theorem declareIn (s : ScopeId) (name : String) :
    t'.declareIn (σ.scopes + s) name = (t.declareIn s name).map (σ.scopes + ·) := by
  unfold ScopeTree.declareIn
  rw [hs.isConstant]
  split
  · rfl
  · rfl

/-- An assignment goes to the shifted scope, or fails alike. -/
theorem assignIn (s : ScopeId) (name : String) :
    t'.assignIn (σ.scopes + s) name = (t.assignIn s name).map (σ.scopes + ·) := by
  unfold ScopeTree.assignIn
  rw [hs.owner?]
  cases t.owner? s name with
  | none => rfl
  | some o =>
    dsimp only [Option.map_some]
    rw [hs.find?, Option.any_map]
    change (if ((t.scope o).find? name).any (·.constant) = true then _ else _) = _
    split
    · rfl
    · rfl

/-! ### New scopes and bindings -/

/-- One more scope on both sides, with shifted bindings and parents. -/
theorem scope_push (scope scope' : Scope) (houter : scope'.outer = scope.outer.map (σ.scopes + ·))
    (hfind : ∀ name, scope'.find? name = (scope.find? name).map σ.binding) :
    (t.push scope).Shifted σ (t'.push scope') where
  size := by rw [size_push, size_push, hs.size, Nat.add_assoc]
  outer s := by
    -- the new scope stands at the size of either tree, and the shift takes one to the other
    rw [ScopeTree.scope_push, ScopeTree.scope_push, hs.size]
    by_cases h : s = t.size
    · rw [if_pos h, if_pos (congrArg _ h), houter]
    · rw [if_neg h, if_neg fun heq => h (Nat.add_left_cancel heq), hs.outer]
  find? s name := by
    rw [ScopeTree.scope_push, ScopeTree.scope_push, hs.size]
    by_cases h : s = t.size
    · rw [if_pos h, if_pos (congrArg _ h), hfind]
    · rw [if_neg h, if_neg fun heq => h (Nat.add_left_cancel heq), hs.find?]

/-- A new scope inside the shifted one. -/
theorem addChild (s : ScopeId) : (t.addChild s).Shifted σ (t'.addChild (σ.scopes + s)) := by
  refine hs.scope_push _ _ (hs.chain s) fun name => ?_
  rw [Scope.find?_bare, Scope.find?_bare, Option.map_none]

/-- A shifted binding in the shifted scope. -/
theorem bind (s : ScopeId) (name : String) (b : Binding) :
    (t.bind s name b).Shifted σ (t'.bind (σ.scopes + s) name (σ.binding b)) where
  size := by rw [size_bind, size_bind, hs.size]
  outer i := by
    have houter : ∀ (t : ScopeTree) s b i,
        ((t.bind s name b).scope i).outer = (t.scope i).outer := by
      intro t s b i
      rw [scope_bind]
      split
      · rfl
      · rfl
    rw [houter, houter, hs.outer]
  find? i other := by
    -- a scope and its shift are bound in the same case
    have hiff : ((σ.scopes + s = σ.scopes + i ∧ σ.scopes + i < t'.size) ∧ name = other) ↔
        ((s = i ∧ i < t.size) ∧ name = other) := by
      rw [hs.size, Nat.add_left_cancel_iff, Nat.add_lt_add_iff_left]
    rw [find?_scope_bind, find?_scope_bind, hs.find?]
    by_cases h : (s = i ∧ i < t.size) ∧ name = other
    · rw [if_pos h, if_pos (hiff.2 h), Option.map_some]
    · rw [if_neg h, if_neg (mt hiff.1 h)]

/-! ### Listings -/

omit hs in
/-- A list of shifted values tabulates what the list tabulates, shifted. -/
theorem tabulates_map {P Q : String → Value → Prop} {bs : List (String × Value)}
    (hbs : Tabulates P bs) (hQ : ∀ name w, Q name w ↔ ∃ v, P name v ∧ σ.value v = w) :
    Tabulates Q (bs.map fun b => (b.1, σ.value b.2)) where
  increasing := List.pairwise_map.2 hbs.increasing
  mem name w := by
    simp only [List.mem_map, Prod.exists, Prod.mk.injEq, hQ]
    constructor
    · rintro ⟨_, v, hmem, rfl, rfl⟩
      exact ⟨v, (hbs.mem _ v).1 hmem, rfl⟩
    · rintro ⟨v, hv, rfl⟩
      exact ⟨name, v, (hbs.mem name v).2 hv, rfl, rfl⟩

/-- The variables of a scope are listed alike. -/
theorem localBindings (s : ScopeId) :
    t'.localBindings (σ.scopes + s) = (t.localBindings s).map fun b => (b.1, σ.value b.2) := by
  -- either list tabulates the variables of the shifted scope, and there is one that does
  refine (tabulates_localBindings t' _ _).unique
    (tabulates_map (tabulates_localBindings t _ s) fun name w => ?_)
  rw [hs.find?, Option.map_eq_some_iff]
  constructor
  · rintro ⟨⟨v, constant⟩, hb, heq⟩
    cases heq
    exact ⟨v, hb, rfl⟩
  · rintro ⟨v, hv, rfl⟩
    exact ⟨⟨v, false⟩, hv, rfl⟩

/-- All variables in sight are listed alike. -/
theorem allBindings (s : ScopeId) :
    t'.allBindings (σ.scopes + s) = (t.allBindings s).map fun b => (b.1, σ.value b.2) := by
  refine (tabulates_allBindings t' _ _).unique
    (tabulates_map (tabulates_allBindings t _ s) fun name w => ?_)
  rw [hs.lookup]
  cases t.lookup s name with
  | ok v => simp [Except.map]
  | error e => simp [Except.map]

end Shifted

end ScopeTree

end AtomScript
