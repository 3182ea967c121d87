import AtomScript.Proofs.Eval.Realm
import AtomScript.Proofs.Heap.Equality
import AtomScript.Proofs.Scope.Basic
import Mathlib.Logic.Relation

/-!
# What a run can touch

Cells and scopes are the *nodes* of a state.  A node leads to those that the values in it refer to,
and a scope also to the scopes around it (`State.links`).  A run gets hold of nodes only by
following links: from the scope that it runs in, or, if it is a call, from the callee and the
arguments.  So a node that it could not reach at the start is at the end what it was.

What can be reached changes along the run, as aliases come and go and functions are made.  But the
nodes that could be reached at the start, together with all nodes made since, are closed under the
links of every state that the run passes through (`State.Closed`).  They are the realm of the run.

* `State.Reachable`, `State.ReachableFrom` — following links, from a node and from a value;
* `footprint` — the realm of a closed set of nodes;
* `evaluation_frame` — what cannot be reached is left alone.
-/

namespace AtomScript

/-! ### Nodes and links -/

/-- A cell or a scope. -/
inductive Node where
  | cell (r : Ref)
  | scope (s : ScopeId)
  deriving DecidableEq, Repr

/-- The cell that the value refers to, or the scope that it has captured. -/
def Value.node? : Value → Option Node
  | .tuple r | .list r | .map r => some (.cell r)
  | .function f => some (.scope f.scope)
  | .lambda f => some (.scope f.scope)
  | _ => none

/-- All that the value refers to satisfies `W`. -/
def Value.Within (W : Node → Prop) (v : Value) : Prop :=
  ∀ x, v.node? = some x → W x

theorem Value.within_of_isPlain {W : Node → Prop} {v : Value} (h : v.isPlain = true) :
    v.Within W := by
  intro x hx
  cases v <;> cases h <;> cases hx

theorem Value.within_of_ref? {W : Node → Prop} {v : Value} {r : Ref} (h : v.ref? = some r) :
    v.Within W ↔ W (.cell r) := by
  have hnode : v.node? = some (.cell r) := by
    cases v <;> cases h <;> rfl
  unfold Value.Within
  rw [hnode]
  simp

namespace State

/-- The values that the scope itself binds. -/
def bound (st : State) (s : ScopeId) : List Value :=
  (st.scopes.scope s).bindings.toList.map (·.2.value)

/-- Where one gets from a node: through elements, keys and values of a cell, and through the
bindings of a scope and the scopes around it. -/
def links (st : State) : Node → List Node
  | .cell r => (st.heap.contents r).filterMap Value.node?
  | .scope s => (st.scopes.scope s).outer.map .scope ++ (st.bound s).filterMap Value.node?

/-- The node is part of the state. -/
def Has (st : State) : Node → Prop
  | .cell r => r < st.heap.size
  | .scope s => s < st.scopes.size

instance (st : State) : DecidablePred st.Has
  | .cell r => inferInstanceAs (Decidable (r < st.heap.size))
  | .scope s => inferInstanceAs (Decidable (s < st.scopes.size))

/-- The node is in the second state what it is in the first. -/
def SameAt (st after : State) : Node → Prop
  | .cell r => after.heap.cells[r]? = st.heap.cells[r]?
  | .scope s => after.scopes.scopes[s]? = st.scopes.scopes[s]?

/-- One gets from the first node to the second. -/
def Reachable (st : State) : Node → Node → Prop :=
  Relation.ReflTransGen fun x y => y ∈ st.links x

/-- One gets from the value to the node. -/
def ReachableFrom (st : State) (v : Value) (x : Node) : Prop :=
  ∃ y, v.node? = some y ∧ st.Reachable y x

variable {st : State}

/-- What is no part of the state leads nowhere. -/
theorem links_of_not_has {x : Node} (hx : ¬ st.Has x) : st.links x = [] := by
  cases x with
  | cell r =>
    have hnone : st.heap.cells[r]? = none := Array.getElem?_eq_none (Nat.le_of_not_lt hx)
    change ((st.heap.contents r).filterMap Value.node?) = []
    unfold Heap.contents
    rw [st.heap.items_of_none hnone, st.heap.table_of_none hnone]
    rfl
  | scope s =>
    change (st.scopes.scope s).outer.map Node.scope ++ (st.bound s).filterMap Value.node? = []
    unfold bound
    rw [st.scopes.scope_of_size_le (Nat.le_of_not_lt hx)]
    rfl

theorem mem_bound {s : ScopeId} {name : String} {b : Binding}
    (h : (st.scopes.scope s).find? name = some b) : b.value ∈ st.bound s := by
  have hmem : (name, b) ∈ (st.scopes.scope s).bindings.toList :=
    Std.TreeMap.mem_toList_iff_getElem?_eq_some.2 h
  exact List.mem_map_of_mem (f := fun p : String × Binding => p.2.value) hmem

/-! ### Closed sets of nodes -/

/-- The set holds all that its nodes lead to, and whatever is yet to be made. -/
structure Closed (st : State) (W : Node → Prop) : Prop where
  of_not_has : ∀ {x}, ¬ st.Has x → W x
  of_mem_links : ∀ {x y}, W x → y ∈ st.links x → W y

namespace Closed

variable {W : Node → Prop}

theorem of_contents (hW : st.Closed W) {r : Ref} (hr : W (.cell r)) {v : Value}
    (hv : v ∈ st.heap.contents r) : v.Within W := fun _ hx =>
  hW.of_mem_links hr (List.mem_filterMap.2 ⟨v, hv, hx⟩)

theorem of_bound (hW : st.Closed W) {s : ScopeId} (hs : W (.scope s)) {v : Value}
    (hv : v ∈ st.bound s) : v.Within W := fun _ hx =>
  hW.of_mem_links hs (List.mem_append_right _ (List.mem_filterMap.2 ⟨v, hv, hx⟩))

theorem of_outer (hW : st.Closed W) {s o : ScopeId} (hs : W (.scope s))
    (ho : o ∈ (st.scopes.scope s).outer) : W (.scope o) :=
  hW.of_mem_links hs (List.mem_append_left _ (List.mem_map_of_mem ho))

end Closed

/-- What can be reached from one of the roots, with what is yet to be made, is closed. -/
theorem closed_reachable (Root : Node → Prop) :
    st.Closed fun x => (∃ root, Root root ∧ st.Reachable root x) ∨ ¬ st.Has x where
  of_not_has hx := .inr hx
  of_mem_links := by
    rintro x y (⟨root, hroot, hreach⟩ | hx) hy
    · exact .inl ⟨root, hroot, hreach.tail hy⟩
    · rw [links_of_not_has hx] at hy
      cases hy

/-- A list of nodes that is closed under links holds all that can be reached from its members. -/
theorem mem_of_reachable {nodes : List Node} (hnodes : ∀ x ∈ nodes, ∀ y ∈ st.links x, y ∈ nodes)
    {x y : Node} (hx : x ∈ nodes) (hreach : st.Reachable x y) : y ∈ nodes := by
  induction hreach with
  | refl => exact hx
  | tail _ hy ih => exact hnodes _ ih _ hy

end State

/-! ### The scopes of a run -/

/-- The scopes of the set are around each other and bind what satisfies `V`; all other scopes are as
they were at the start, and every scope made since is in the set. -/
structure ScopeTree.Confined (start : ScopeTree) (D : ScopeId → Prop) (V : Value → Prop)
    (t : ScopeTree) : Prop where
  size : start.size ≤ t.size
  outer : ∀ s, D s → ∀ o ∈ (t.scope s).outer, D o
  binds : t.Binds D V
  outside : ∀ s, ¬ D s → t.scopes[s]? = start.scopes[s]?

namespace ScopeTree.Confined

variable {start t : ScopeTree} {D : ScopeId → Prop} {V : Value → Prop} {s : ScopeId}

theorem chain (h : start.Confined D V t) (hs : D s) : ∀ i ∈ t.chain s, D i := by
  intro i hi
  rcases List.mem_cons.1 hi with rfl | hi
  · exact hs
  · exact h.outer s hs i hi

theorem addChild (h : start.Confined D V t) (hnew : ∀ i, start.size ≤ i → D i) (hs : D s) :
    start.Confined D V (t.addChild s) where
  -- the new scope has the chain of its parent as its way outwards
  size := by
    rw [size_addChild]
    exact Nat.le_succ_of_le h.size
  outer := fun i hi o ho => by
    unfold ScopeTree.addChild at ho
    rw [scope_push] at ho
    split at ho
    · exact h.chain hs o ho
    · exact h.outer i hi o ho
  binds := h.binds.addChild
  -- an outside scope is an old one, since all new ones are inside
  outside := fun i hi => by
    have hlt : i < t.size := Nat.lt_of_not_le fun hle => hi (hnew i (Nat.le_trans h.size hle))
    have hne : i ≠ t.scopes.size := Nat.ne_of_lt hlt
    unfold ScopeTree.addChild ScopeTree.push
    rw [Array.getElem?_push, if_neg hne]
    exact h.outside i hi

theorem bind (h : start.Confined D V t) (hs : D s) {name : String} {b : Binding} (hb : V b.value) :
    start.Confined D V (t.bind s name b) where
  size := by
    rw [size_bind]
    exact h.size
  -- the way outwards does not change, and a binding is made inside only
  outer := fun i hi o ho => by
    have hchain : o ∈ t.chain i := by
      rw [← t.chain_bind s name b i]
      exact List.mem_cons_of_mem i ho
    exact h.chain hi o hchain
  binds := h.binds.bind hb
  outside := fun i hi => by
    unfold ScopeTree.bind
    rw [Array.getElem?_modify, if_neg fun heq : s = i => hi (heq ▸ hs)]
    exact h.outside i hi

end ScopeTree.Confined

/-! ### The realm of a closed set -/

section

variable {st : State} {W : Node → Prop}

/-- **The realm of a closed set of nodes**, for a run that starts in the state. -/
def footprint (hW : st.Closed W) : Realm where
  start := st.heap
  Region r := W (.cell r)
  Val := Value.Within W
  Scope s := W (.scope s)
  Here s := W (.scope s)
  Body _ := True
  Fails _ := True
  Tree := st.scopes.Confined (fun s => W (.scope s)) (Value.Within W)
  -- what is not there yet counts as inside, so new cells and scopes need no care
  region_of_le hr := hW.of_not_has (Nat.not_lt.2 hr)
  val_plain := Value.within_of_isPlain
  val_ref := Value.within_of_ref?
  val_function := by simp [Value.Within, Value.node?]
  val_lambda := by simp [Value.Within, Value.node?]
  here_scope hs := hs
  fails_of_proper _ := trivial
  fails_of_body _ _ _ := trivial
  lookup ht hs hv := ht.binds.lookup (ht.chain hs) hv
  addChild ht hs := by
    have hnew : ∀ i, st.scopes.size ≤ i → W (.scope i) := fun i hi =>
      hW.of_not_has (Nat.not_lt.2 hi)
    exact ⟨ht.addChild hnew hs, hnew _ ht.size⟩
  declare ht hs hv ho := ht.bind (ScopeTree.eq_of_declareIn ho ▸ hs) hv
  assign ht hs hv ho := ht.bind (ht.chain hs _ (ScopeTree.mem_chain_of_assignIn ho)) hv

namespace footprint

theorem keeps_start (hW : st.Closed W) : (footprint hW).Keeps st.heap where
  size := Nat.le_refl _
  cells := fun r c hr hc => by
    -- the contents of a cell inside are inside
    have hholds : ∀ v ∈ st.heap.contents r, v.Within W := fun v hv => hW.of_contents hr hv
    refine ⟨fun v hv => hholds v ?_, fun e he => ⟨hholds _ ?_, hholds _ ?_⟩⟩
    · refine Heap.mem_contents_items ?_
      rw [st.heap.items_of_cell hc]
      exact Array.mem_toList_iff.2 hv
    · refine Heap.mem_contents_key ?_
      rw [st.heap.table_of_cell hc]
      exact he
    · refine Heap.mem_contents_value ?_
      rw [st.heap.table_of_cell hc]
      exact he
  outside := fun _ _ => rfl

theorem confined_start (hW : st.Closed W) : (footprint hW).Tree st.scopes where
  size := Nat.le_refl _
  outer := fun _ hs _ ho => hW.of_outer hs ho
  binds := fun _ hs _ _ hb => hW.of_bound hs (State.mem_bound hb)
  outside := fun _ _ => rfl

/-- A computation that stays in the realm leaves the nodes outside alone. -/
theorem sameAt {hW : st.Closed W} {α : Type} {Q : Unit → α → Prop} {x : Eval α}
    (hx : (footprint hW).regime.Comp () Q x) (b : Bounds) {node : Node} (hnode : ¬ W node) :
    st.SameAt (x b st).2 node := by
  obtain ⟨hheap, htree, -⟩ := Realm.comp_run hx b (keeps_start hW) (confined_start hW)
  cases node with
  | cell r => exact hheap.outside r hnode
  | scope s => exact htree.outside s hnode

end footprint

end

/-- **What cannot be reached is left alone.**  Let a node be part of the state.  If it cannot be
reached from a scope, then evaluating an expression or a statement in this scope leaves it as it is,
however that ends.  If it cannot be reached from a value and arguments, then calling the value with
them leaves it as it is, wherever the call stands. -/
theorem evaluation_frame (n : Nat) (b : Bounds) (st : State) (x : Node) (hx : st.Has x) :
    (∀ i, ¬ st.Reachable (.scope i) x →
      (∀ e, st.SameAt (evalExpr n i e b st).2 x) ∧
      (∀ stmt, st.SameAt (evalStmt n i stmt b st).2 x)) ∧
    (∀ v vs, (∀ u ∈ v :: vs, ¬ st.ReachableFrom u x) → st.SameAt (callValue n v vs b st).2 x) := by
  constructor
  -- inside is what the scope reaches, and all that is not there yet
  · intro i hi
    have hW := st.closed_reachable (· = Node.scope i)
    have hrules := (footprint hW).logic.evaluates n
    have hhere : (footprint hW).Here i := .inl ⟨_, rfl, .refl⟩
    have houtside : ¬ ((∃ root, root = Node.scope i ∧ st.Reachable root x) ∨ ¬ st.Has x) := by
      rintro (⟨root, rfl, hreach⟩ | hnot)
      · exact hi hreach
      · exact hnot hx
    exact ⟨fun e => footprint.sameAt (hrules.expr (w := ()) hhere) b houtside,
      fun stmt => footprint.sameAt (hrules.stmt (w := ()) hhere fun _ _ => trivial) b houtside⟩
  -- inside is what the callee and the arguments reach
  · intro v vs hvs
    have hW := st.closed_reachable fun root => ∃ u ∈ v :: vs, u.node? = some root
    have hval : ∀ u ∈ v :: vs, (footprint hW).Val u := fun u hu root hroot =>
      .inl ⟨root, ⟨u, hu, hroot⟩, .refl⟩
    have houtside : ¬ ((∃ root, (∃ u ∈ v :: vs, u.node? = some root) ∧ st.Reachable root x) ∨
        ¬ st.Has x) := by
      rintro (⟨root, ⟨u, hu, hroot⟩, hreach⟩ | hnot)
      · exact hvs u hu ⟨root, hroot, hreach⟩
      · exact hnot hx
    have hcall := ((footprint hW).logic.evaluates n).call (w := ())
      (hval v List.mem_cons_self) fun u hu => hval u (List.mem_cons_of_mem v hu)
    exact footprint.sameAt hcall b houtside

/-- The scope of a call and the list it has made are out of reach of the global scope, and of a
function that was made there. -/
theorem evaluation_frame_locals :
    let st := ((Session.new 8).run 60 "def f() do return 1 end def g() do y = [] end g()").2.state
    (∀ e, st.SameAt (evalExpr 40 globalScope e ⟨8, none⟩ st).2 (.cell 0)) ∧
      ∃ v, st.scopes.lookup globalScope "f" = .ok v ∧
        st.SameAt (callValue 40 v [] ⟨8, none⟩ st).2 (.scope 1) := by
  intro st
  have hstate : (st.Has (.scope 1) ∧ st.Has (.cell 0)) ∧
      -- from the global scope one gets nowhere else
      (∀ x ∈ [Node.scope globalScope], ∀ y ∈ st.links x, y ∈ [Node.scope globalScope]) ∧
      (st.scopes.lookup globalScope "f").toOption.bind Value.node? =
        some (.scope globalScope) := by
    decide +kernel
  obtain ⟨⟨hscope, hcell⟩, hclosed, hfound⟩ := hstate
  have hunreachable : ∀ x ∉ [Node.scope globalScope], ¬ st.Reachable (.scope globalScope) x :=
    fun x hx hreach => hx (State.mem_of_reachable hclosed List.mem_cons_self hreach)
  refine ⟨((evaluation_frame 40 ⟨8, none⟩ st _ hcell).1 globalScope
    (hunreachable _ (by decide))).1, ?_⟩
  cases hlookup : st.scopes.lookup globalScope "f" with
  | error e => simp [hlookup, Except.toOption] at hfound
  | ok v =>
    have hnode : v.node? = some (.scope globalScope) := by
      simpa [hlookup, Except.toOption] using hfound
    refine ⟨v, rfl, (evaluation_frame 40 ⟨8, none⟩ st _ hscope).2 v [] ?_⟩
    rintro u hu ⟨y, hy, hreach⟩
    obtain rfl := List.mem_singleton.1 hu
    obtain rfl := Option.some.inj (hnode.symm.trans hy)
    exact hunreachable _ (by decide) hreach

end AtomScript
