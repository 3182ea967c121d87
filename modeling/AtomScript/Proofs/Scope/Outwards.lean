import AtomScript.Proofs.Scope.Listing

/-!
# Going outwards

Names are looked up, assigned and listed by going outwards: a scope that cannot answer asks the
scope around it, and so on.  `ScopeTree.Outwards` says what comes of this, whatever each scope makes
of the answer from around.  A derivation is a finite walk, so an operation that has one ends.

In a tree in which every scope was made inside an earlier one there is always exactly one
(`ScopeTree.Linked.existsUnique_outwards`), and the operations on the tree, which read the scopes
around off a list, give what comes of going outwards (`ScopeTree.Linked.climbs`).
-/

namespace AtomScript.ScopeTree

variable {t : ScopeTree} {s p : ScopeId} {name : String} {α : Type}

/-- What comes of an operation that goes outwards from `s`: each scope makes `f` of what has come of
it in the scope around, if there is one. -/
inductive Outwards (t : ScopeTree) (f : ScopeId → Option α → α) : ScopeId → α → Prop where
  | outermost {s : ScopeId} : t.parent? s = none → Outwards t f s (f s none)
  | around {s p : ScopeId} {a : α} :
    t.parent? s = some p → Outwards t f p a → Outwards t f s (f s (some a))

/-- The last scope that is met on the way outwards. -/
def outermost (t : ScopeTree) (s : ScopeId) : ScopeId :=
  (t.chain s).getLastD s

/-! ### What a scope makes of the answer from around -/

def lookupHere (t : ScopeTree) (name : String) (o : ScopeId)
    (around : Option (Except Error Value)) : Except Error Value :=
  ((t.scope o).find? name).elim (around.getD (.error (.undefined name))) fun b => .ok b.value

def assignHere (t : ScopeTree) (name : String) (v : Value) (o : ScopeId)
    (around : Option (Except Error ScopeTree)) : Except Error ScopeTree :=
  ((t.scope o).find? name).elim (around.getD (.error (.undefined name))) fun b =>
    if b.constant then .error (.constant name) else .ok (t.bind o name ⟨v, false⟩)

def containsHere (t : ScopeTree) (name : String) (o : ScopeId) (around : Option Bool) : Bool :=
  t.hasLocal o name || around.getD false

def isConstantHere (t : ScopeTree) (name : String) (o : ScopeId) (around : Option Bool) : Bool :=
  ((t.scope o).find? name).elim (around.getD false) (·.constant)

/-- The scope takes up its own bindings, and hands what has been gathered to the scope around. -/
def collectHere (t : ScopeTree) (order : t.TableOrder) (o : ScopeId)
    (around : Option (Gathered → Gathered)) (g : Gathered) : Gathered :=
  around.getD id ((order.bindings o).foldl .add g)

def depthHere (_ : ScopeId) (around : Option Nat) : Nat :=
  1 + around.getD 0

/-- **Going outwards ends**, with one result whatever is done on the way, and the operations give
what comes of it.  The list of all bindings is what is gathered on the way, sorted; how to gather is
itself what comes of going outwards, since a scope has its turn before the scope around it. -/
structure Climbs (t : ScopeTree) (s : ScopeId) : Prop where
  ends : ∀ (α : Type) (f : ScopeId → Option α → α), ∃! a, t.Outwards f s a
  lookup : ∀ name, t.Outwards (t.lookupHere name) s (t.lookup s name)
  assign : ∀ name v, t.Outwards (t.assignHere name v) s (t.assign s name v)
  contains : ∀ name, t.Outwards (t.containsHere name) s (t.contains s name)
  isConstant : ∀ name, t.Outwards (t.isConstantHere name) s (t.isConstant s name)
  allBindings : ∀ order : t.TableOrder, ∃ gather : Gathered → Gathered,
    t.Outwards (t.collectHere order) s gather ∧
      t.allBindings s order = sortByName (gather .empty).bindings
  depth : t.Outwards depthHere s (t.depth s)

/-! ### Results of going outwards -/

variable {f : ScopeId → Option α → α} {a b : α}

theorem Outwards.unique (ha : t.Outwards f s a) (hb : t.Outwards f s b) : a = b := by
  induction ha generalizing b with
  -- by induction on the first climb: a scope either has a parent or has none
  | outermost hs =>
    cases hb with
    | outermost _ => rfl
    | around hp _ =>
      rw [hs] at hp
      cases hp
  | around hp _ ih =>
    cases hb with
    | outermost hs =>
      rw [hs] at hp
      cases hp
    | around hq hb =>
      -- both climbs go through the same parent, so they do the same there
      rw [hp] at hq
      cases hq
      rw [ih hb]

/-- Induction outwards: the scope around a scope of the tree is an earlier one. -/
theorem Linked.induction (ht : t.Linked) {P : ScopeId → Prop}
    (h : ∀ i < t.size, (∀ p, t.parent? i = some p → P p) → P i) (hs : s < t.size) : P s := by
  induction s using Nat.strongRecOn with
  | ind s ih =>
    refine h s hs fun p hp => ?_
    have hlt := ht.parent_lt hs hp
    exact ih p hlt (Nat.lt_trans hlt hs)

/-- What every scope makes of what the scope around it gives, comes of going outwards. -/
theorem Linked.outwards (ht : t.Linked) {g : ScopeId → α}
    (hg : ∀ i < t.size, g i = f i ((t.parent? i).map g)) (hs : s < t.size) :
    t.Outwards f s (g s) := by
  refine ht.induction (P := fun i => t.Outwards f i (g i)) (fun i hi ih => ?_) hs
  rw [hg i hi]
  cases hp : t.parent? i with
  | none => exact .outermost hp
  | some p => exact .around hp (ih p hp)

theorem Linked.exists_outwards (ht : t.Linked) (f : ScopeId → Option α → α) (hs : s < t.size) :
    ∃ a, t.Outwards f s a := by
  refine ht.induction (P := fun i => ∃ a, t.Outwards f i a) (fun i _ ih => ?_) hs
  cases hp : t.parent? i with
  | none => exact ⟨_, .outermost hp⟩
  | some p =>
    obtain ⟨a, ha⟩ := ih p hp
    exact ⟨_, .around hp ha⟩

/-- **There is exactly one result.** -/
theorem Linked.existsUnique_outwards (ht : t.Linked) (f : ScopeId → Option α → α)
    (hs : s < t.size) : ∃! a, t.Outwards f s a := by
  obtain ⟨a, ha⟩ := ht.exists_outwards f hs
  exact ⟨a, ha, fun b hb => hb.unique ha⟩

/-! ### From scope to scope -/

namespace Linked

variable (ht : t.Linked) (hs : s < t.size)

include ht hs

/-- The chain of a scope is that of the scope around it with the scope itself in front. -/
theorem chain_eq : t.chain s = s :: ((t.parent? s).map t.chain).getD [] := by
  unfold parent?
  rw [chain]
  rcases ht s hs with hroot | ⟨p, -, hp⟩
  · rw [hroot]
    rfl
  · rw [hp]
    rfl

theorem resolve?_eq (name : String) : t.resolve? s name =
    ((t.scope s).find? name).or ((t.parent? s).bind fun p => t.resolve? p name) := by
  unfold resolve?
  rw [ht.chain_eq hs, List.findSome?_cons]
  cases (t.scope s).find? name with
  | some b => rfl
  | none => cases t.parent? s <;> rfl

theorem lookup_eq (name : String) :
    t.lookup s name = t.lookupHere name s ((t.parent? s).map fun p => t.lookup p name) := by
  unfold lookup lookupHere
  rw [ht.resolve?_eq hs]
  cases (t.scope s).find? name with
  | some b => rfl
  | none => cases t.parent? s <;> rfl

theorem assign_eq (name : String) (v : Value) :
    t.assign s name v = t.assignHere name v s ((t.parent? s).map fun p => t.assign p name v) := by
  unfold assign assignIn assignHere
  rw [ht.owner?_eq hs, Scope.owns_eq]
  -- the scope itself decides, if it owns the name
  cases hfind : (t.scope s).find? name with
  | some b =>
    obtain ⟨w, constant⟩ := b
    simp only [Option.isSome_some, if_true, Option.elim_some, hfind]
    cases constant <;> rfl
  | none => cases t.parent? s <;> rfl

theorem contains_eq (name : String) :
    t.contains s name = t.containsHere name s ((t.parent? s).map fun p => t.contains p name) := by
  unfold contains containsHere hasLocal
  rw [ht.chain_eq hs, List.any_cons]
  cases t.parent? s <;> rfl

theorem isConstant_eq (name : String) : t.isConstant s name =
    t.isConstantHere name s ((t.parent? s).map fun p => t.isConstant p name) := by
  unfold isConstant isConstantHere
  rw [ht.resolve?_eq hs]
  cases (t.scope s).find? name with
  | some b => rfl
  | none => cases t.parent? s <;> rfl

theorem collect_eq (order : t.TableOrder) :
    t.collect order s = t.collectHere order s ((t.parent? s).map (t.collect order)) := by
  funext g
  unfold collect collectHere
  rw [ht.chain_eq hs, List.foldl_cons]
  cases t.parent? s <;> rfl

theorem depth_eq : t.depth s = depthHere s ((t.parent? s).map t.depth) := by
  unfold depth depthHere
  rw [ht.chain_eq hs, List.length_cons, Nat.add_comm]
  cases t.parent? s <;> rfl

theorem outermost_eq : t.outermost s = ((t.parent? s).map t.outermost).getD s := by
  unfold outermost
  rw [ht.chain_eq hs]
  cases t.parent? s with
  | none => rfl
  | some p =>
    change (s :: p :: (t.scope p).outer).getLastD s = (p :: (t.scope p).outer).getLastD p
    rw [List.getLastD_cons, List.getLastD_cons, List.getLastD_cons]

/-- **The operations give what comes of going outwards.** -/
theorem climbs : t.Climbs s where
  ends _ f := ht.existsUnique_outwards f hs
  lookup name := ht.outwards (g := fun i => t.lookup i name) (fun _ hi => ht.lookup_eq hi name) hs
  assign name v :=
    ht.outwards (g := fun i => t.assign i name v) (fun _ hi => ht.assign_eq hi name v) hs
  contains name :=
    ht.outwards (g := fun i => t.contains i name) (fun _ hi => ht.contains_eq hi name) hs
  isConstant name :=
    ht.outwards (g := fun i => t.isConstant i name) (fun _ hi => ht.isConstant_eq hi name) hs
  allBindings order := ⟨t.collect order s, ht.outwards (fun _ hi => ht.collect_eq hi order) hs, rfl⟩
  depth := ht.outwards (fun _ hi => ht.depth_eq hi) hs

/-- The way outwards ends at a scope of the tree that is inside no other. -/
theorem outermost_spec : t.outermost s < t.size ∧ t.parent? (t.outermost s) = none := by
  refine ht.induction (P := fun i => t.outermost i < t.size ∧ t.parent? (t.outermost i) = none)
    (fun i hi ih => ?_) hs
  rw [ht.outermost_eq hi]
  cases hp : t.parent? i with
  | none => exact ⟨hi, hp⟩
  | some p => exact ih p hp

/-- No scope on the way was made after `s`. -/
theorem le_of_mem_chain : ∀ i ∈ t.chain s, i ≤ s := by
  refine ht.induction (P := fun j => ∀ i ∈ t.chain j, i ≤ j) (fun j hj ih i hi => ?_) hs
  rw [ht.chain_eq hj] at hi
  rcases List.mem_cons.1 hi with rfl | hi
  · exact Nat.le_refl i
  · cases hp : t.parent? j with
    | none =>
      rw [hp] at hi
      cases hi
    | some p =>
      rw [hp] at hi
      exact Nat.le_trans (ih p hp i hi) (Nat.le_of_lt (ht.parent_lt hj hp))

end Linked

end AtomScript.ScopeTree
