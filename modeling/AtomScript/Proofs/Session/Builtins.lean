import AtomScript.Proofs.Heap.Copying
import AtomScript.Proofs.Session.Global
import AtomScript.Proofs.Session.Reached

/-!
# Built-in names

The names that a session starts with keep their values for ever.  `ScopeTree.Intact` is the
invariant: the global scope has them as constants, with their first values, and no other scope has
them at all.  A name is bound only after `declareIn` or `assignIn` has named a scope for it, and
both refuse a name that means a constant; so what is bound is never a built-in name, *provided* the
global scope is on the chain of the scope in question.  Therefore the invariant also says
(`ScopeTree.Rooted`) that the global scope is on every chain, and that no function at large refers
to a scope outside the tree, for a call makes a scope inside the one that its function was made in.

* `ScopeTree.declareIn_builtin`, `ScopeTree.assignIn_builtin` — a built-in name is refused;
* `builtinLogic` — the evaluator keeps this up.
-/

namespace AtomScript

/-- The scope that a function was made in. -/
def Value.scope? : Value → Option ScopeId
  | .function f => some f.scope
  | .lambda f => some f.scope
  | _ => none

/-- An aggregate is no function. -/
theorem Value.scope?_of_ref? {v : Value} {r : Ref} (h : v.ref? = some r) : v.scope? = none := by
  cases v with
  | function f => cases h
  | lambda f => cases h
  | _ => rfl

/-- Plain values have no scope. -/
theorem Value.scope?_of_isPlain {v : Value} (h : v.isPlain = true) : v.scope? = none := by
  cases v with
  | function f => cases h
  | lambda f => cases h
  | _ => rfl

/-- A function was made in one of the scopes up to `n`. -/
def Value.ScopedBy (n : Nat) (v : Value) : Prop :=
  ∀ s, v.scope? = some s → s ≤ n

/-- A value of the scopes up to some place is one of the scopes up to any later place. -/
theorem Value.ScopedBy.mono {m n : Nat} {v : Value} (h : v.ScopedBy m) (hle : m ≤ n) :
    v.ScopedBy n :=
  fun s hs => Nat.le_trans (h s hs) hle

/-- Plain values need no scope. -/
theorem Value.scopedBy_of_isPlain {n : Nat} {v : Value} (h : v.isPlain = true) : v.ScopedBy n := by
  intro s hs
  rw [scope?_of_isPlain h] at hs
  cases hs

namespace ScopeTree

/-- The built-in names are constants of the global scope, with their first values, and no other
scope has them. -/
def Intact (t : ScopeTree) : Prop :=
  ∀ b ∈ builtins, (t.scope globalScope).find? b.1 = some ⟨b.2, true⟩ ∧
    ∀ i, i ≠ globalScope → (t.scope i).find? b.1 = none

/-- The scopes are those up to `n`, all of them inside the global one, and functions that are bound
were made in them. -/
structure Rooted (n : Nat) (t : ScopeTree) : Prop where
  size : t.size = n + 1
  inside : ∀ s : Nat, s ≤ n → globalScope ∈ t.chain s
  functions : ∀ i name b, (t.scope i).find? name = some b → b.value.ScopedBy n

variable {n s : Nat} {t : ScopeTree} {name : String} {v : Value}

/-! ### What a built-in name means -/

section Builtin

variable (hi : t.Intact) (hr : t.Rooted n) (hs : s ≤ n) (hb : (name, v) ∈ builtins)

include hi hr hs hb

/-- A built-in name resolves to its constant from every scope. -/
theorem resolve?_builtin : t.resolve? s name = some ⟨v, true⟩ :=
  resolve?_eq_of_mem (hr.inside s hs) (hi _ hb).1 (hi _ hb).2

/-- A built-in name is looked up to its value from every scope. -/
theorem lookup_builtin : t.lookup s name = .ok v := by
  unfold lookup
  rw [resolve?_builtin hi hr hs hb]

/-- A built-in name cannot be declared anywhere. -/
theorem declareIn_builtin : t.declareIn s name = .error (.constant name) := by
  unfold declareIn isConstant
  rw [resolve?_builtin hi hr hs hb]
  rfl

/-- A built-in name cannot be assigned anywhere. -/
theorem assignIn_builtin : t.assignIn s name = .error (.constant name) := by
  have h := resolve?_builtin hi hr hs hb
  rw [resolve?_eq_owner?, Option.bind_eq_some_iff] at h
  -- the owner is the scope that has the constant, and is asked for it once more
  obtain ⟨o, ho, hfind⟩ := h
  unfold assignIn
  rw [ho]
  dsimp only
  rw [hfind]
  rfl

end Builtin

/-! ### What keeps the names intact -/

/-- Binding any other name leaves the built-in names alone. -/
theorem Intact.bind {o : ScopeId} {b : Binding} (hi : t.Intact)
    (hname : ∀ c ∈ builtins, c.1 ≠ name) : (t.bind o name b).Intact := by
  intro c hc
  refine ⟨?_, fun i hne => ?_⟩
  · rw [find?_scope_bind, if_neg fun h => hname c hc h.2.symm]
    exact (hi c hc).1
  · rw [find?_scope_bind, if_neg fun h => hname c hc h.2.symm]
    exact (hi c hc).2 i hne

/-- A new scope leaves the built-in names intact. -/
theorem Intact.addChild (hi : t.Intact) (hsize : globalScope < t.size) :
    (t.addChild s).Intact := by
  intro c hc
  have hscope : ∀ i, i ≠ t.size → (t.addChild s).scope i = t.scope i := fun i hne => by
    unfold ScopeTree.addChild
    rw [scope_push, if_neg hne]
  refine ⟨?_, fun i hne => ?_⟩
  · rw [hscope _ (Nat.ne_of_lt hsize)]
    exact (hi c hc).1
  -- the new scope is bare, so it has no built-in name either
  · by_cases hnew : i = t.size
    · unfold ScopeTree.addChild
      rw [scope_push, if_pos hnew, Scope.find?_bare]
    · rw [hscope i hnew]
      exact (hi c hc).2 i hne

/-- A binding leaves every scope rooted in the global one. -/
theorem Rooted.bind {o : ScopeId} {b : Binding} (hr : t.Rooted n) (hb : b.value.ScopedBy n) :
    (t.bind o name b).Rooted n where
  size := by rw [size_bind, hr.size]
  inside := fun s hs => by
    rw [chain_bind]
    exact hr.inside s hs
  functions := fun i other c hc => by
    rw [find?_scope_bind] at hc
    split at hc
    · cases hc
      exact hb
    · exact hr.functions i other c hc

/-- A scope inside one of the tree is inside the global one as well. -/
theorem Rooted.addChild (hr : t.Rooted n) (hs : s ≤ n) : (t.addChild s).Rooted (n + 1) where
  size := by rw [size_addChild, hr.size]
  inside := fun i hi => by
    rw [chain_addChild]
    -- its chain is that of the scope around it with itself in front; other chains are as they were
    split
    · exact List.mem_cons_of_mem i (hr.inside s hs)
    · next hne =>
      rw [hr.size] at hne
      exact hr.inside i (Nat.lt_succ_iff.1 (Nat.lt_of_le_of_ne hi hne))
  functions := fun i other c hc => by
    unfold ScopeTree.addChild at hc
    rw [scope_push] at hc
    split at hc
    · rw [Scope.find?_bare] at hc
      cases hc
    · exact (hr.functions i other c hc).mono (Nat.le_succ n)

/-! ### The tree that a session starts with -/

/-- At the start the built-in names are intact. -/
theorem intact_globalScopes : globalScopes.Intact :=
  fun _ hb => ⟨find?_globalScopes hb, fun _ hi => find?_globalScopes_of_ne hi⟩

/-- At the start the one scope is the global one. -/
theorem rooted_globalScopes : globalScopes.Rooted 0 where
  size := size_globalScopes
  inside := fun s hs => by
    rw [Nat.le_zero.1 hs]
    exact List.mem_cons_self
  functions := fun _ _ _ hb =>
    Value.scopedBy_of_isPlain (isPlain_builtins _ (mem_builtins_of_find?_globalScopes hb))

end ScopeTree

/-! ### The regime of the built-in names -/

/-- A value with a cell needs no scope of its own. -/
theorem Value.scopedBy_of_ref? {n : Nat} {v : Value} {r : Ref} (h : v.ref? = some r) :
    v.ScopedBy n := by
  intro s hs
  rw [scope?_of_ref? h] at hs
  cases hs

/-- The regime: a world counts the scopes inside the global one. -/
def builtinRegime : Regime where
  -- a world is the number of the last scope, so it grows with every new one
  World := Nat
  le m n := m ≤ n
  le_refl := Nat.le_refl
  le_trans := Nat.le_trans
  Holds n h t := h.Holds (Value.ScopedBy n) (Value.ScopedBy n) ∧ t.Intact ∧ t.Rooted n
  Allowed _ _ _ := True
  Done _ _ _ := True
  Fails _ := True
  fails_of_proper _ := trivial

namespace builtinRegime

variable {n : Nat} {s : ScopeId} {name : String} {v : Value}

/-- A new cell of values of the known scopes. -/
theorem comp_alloc {c : Cell} (hc : c.Holds (Value.ScopedBy n) (Value.ScopedBy n)) :
    builtinRegime.Comp n (fun _ _ => True) (Eval.alloc c) :=
  Regime.comp_act_total fun _ hst _ =>
    ⟨trivial, n, Nat.le_refl n, ⟨hst.1.push hc, hst.2⟩, trivial⟩

/-- An edit of a table that brings in values of the known scopes only. -/
theorem comp_editTable {event : Ref → Event} {r : Ref} {f : Heap → Table → Table}
    (hf : ∀ h t, t.Holds (Value.ScopedBy n) (Value.ScopedBy n) →
      (f h t).Holds (Value.ScopedBy n) (Value.ScopedBy n)) :
    builtinRegime.Comp n (fun _ _ => True) (Eval.editTable event r f) :=
  Regime.comp_act_total fun st hst _ =>
    ⟨trivial, n, Nat.le_refl n, ⟨hst.1.editTable fun t ht => hf st.heap t ht, hst.2⟩, trivial⟩

/-- Copying for a key adds cells, whose contents were there before. -/
theorem comp_detachKey (hv : v.ScopedBy n) :
    builtinRegime.Comp n Value.ScopedBy (Eval.detachKey v) := by
  refine Regime.comp_detachKey fun st copy g hst hd => ?_
  -- the copy holds only values that the original holds
  obtain ⟨hheap, hcopy⟩ := hst.1.detach (fun _ _ hr => Value.scopedBy_of_ref? hr) hv hd
  exact ⟨trivial, n, Nat.le_refl n, ⟨hheap, hst.2⟩, hcopy⟩

/-- A new scope inside a known one, which is then known too. -/
theorem comp_newScope (hs : s ≤ n) :
    builtinRegime.Comp n (fun (m : Nat) i => i ≤ m) (Eval.newScope s) := by
  refine Regime.comp_act_total fun st hst _ => ⟨trivial, Nat.succ n, Nat.le_succ n, ?_, ?_⟩
  · obtain ⟨hheap, hintact, hrooted⟩ := hst
    -- there is one scope more, so functions may have been made in one scope more
    refine ⟨hheap.imp (fun _ hv => hv.mono (Nat.le_succ n)) fun _ hv => hv.mono (Nat.le_succ n),
      hintact.addChild ?_, hrooted.addChild hs⟩
    rw [hrooted.size]
    exact Nat.succ_pos n
  · exact Nat.le_of_eq hst.2.2.size

/-- A name has a value of the known scopes. -/
theorem comp_lookup : builtinRegime.Comp n Value.ScopedBy (Eval.lookup s name) := by
  refine Regime.comp_lookup fun st v hst hv => ?_
  have hbinds : st.scopes.Binds (fun _ => True) (Value.ScopedBy n) := fun i _ =>
    hst.2.2.functions i
  exact hbinds.lookup (fun _ _ => trivial) hv

/-- The step that binds a name: whatever scope has been named for it, the name is none of the
built-in ones. -/
theorem comp_binding {locate : ScopeTree → Except Error ScopeId} (hv : v.ScopedBy n)
    (hrefuses : ∀ t u, t.Intact → t.Rooted n → (name, u) ∈ builtins →
      locate t = .error (.constant name)) :
    builtinRegime.Comp n (fun _ _ => True) (Eval.act .bind fun st =>
      match locate st.scopes with
      | .ok o => (.value (), { st with scopes := st.scopes.bind o name ⟨v, false⟩ })
      | .error e => (.error e, st)) := by
  refine Regime.comp_binding locate (fun _ _ _ => trivial) fun st o hst ho =>
    ⟨trivial, n, Nat.le_refl n, hst.1, ?_⟩
  refine ⟨hst.2.1.bind fun b hb heq => ?_, hst.2.2.bind hv⟩
  -- for a built-in name no scope would have been named
  have := hrefuses st.scopes b.2 hst.2.1 hst.2.2 (heq ▸ hb)
  rw [ho] at this
  cases this

end builtinRegime

/-- **The evaluator keeps the built-in names intact.** -/
def builtinLogic : Logic where
  World := Nat
  le m n := m ≤ n
  le_refl := Nat.le_refl
  le_trans := Nat.le_trans
  Inv := builtinRegime.Inv
  Val n v := v.ScopedBy n
  Key n v := v.ScopedBy n
  Tab n t := t.Holds (Value.ScopedBy n) (Value.ScopedBy n)
  Scope n s := s ≤ n
  Here n s := s ≤ n
  Body _ := True
  Fails _ := True
  Comp := builtinRegime.Comp
  val_mono hle hv := hv.mono hle
  key_mono hle hv := hv.mono hle
  tab_mono hle ht := ht.imp (fun _ hv => hv.mono hle) fun _ hv => hv.mono hle
  scope_mono hle hs := Nat.le_trans hs hle
  here_mono hle hs := Nat.le_trans hs hle
  here_scope hs := hs
  val_plain := Value.scopedBy_of_isPlain
  val_function := by simp [Value.ScopedBy, Value.scope?]
  val_lambda := by simp [Value.ScopedBy, Value.scope?]
  fails_of_proper _ := trivial
  fails_of_body _ _ _ := trivial
  items hst _ _ _ hx := hst.1.items hx
  entries hst _ e he := hst.1.table _ e he
  tab_withRoom := Table.holds_withRoom _
  tab_insert _ ht hk hv := Heap.holds_insert _ ht hk hv
  pure := Regime.comp_pure (R := builtinRegime)
  bind := Regime.comp_bind (R := builtinRegime)
  fail := Regime.comp_fail (R := builtinRegime)
  exhausted := Regime.comp_exhausted (R := builtinRegime)
  reading := Regime.comp_reading (R := builtinRegime)
  frame := Regime.comp_frame (R := builtinRegime)
  newTuple hvs := Regime.comp_bind
    (builtinRegime.comp_alloc (Cell.holds_tuple (by simpa using hvs)))
    fun _ _ _ _ => Regime.comp_pure fun _ hs => by cases hs
  newList hvs := Regime.comp_bind
    (builtinRegime.comp_alloc (Cell.holds_list (by simpa using hvs)))
    fun _ _ _ _ => Regime.comp_pure fun _ hs => by cases hs
  newMap ht := Regime.comp_bind (builtinRegime.comp_alloc (Cell.holds_map ht))
    fun _ _ _ _ => Regime.comp_pure fun _ hs => by cases hs
  editItems _ _ hf := Regime.comp_act_total fun _ hst _ =>
    ⟨trivial, _, Nat.le_refl _, ⟨hst.1.editItems hf, hst.2⟩, trivial⟩
  put _ hk hv := builtinRegime.comp_editTable fun h _ ht => h.holds_insert ht hk hv
  replace _ _ hv := builtinRegime.comp_editTable fun h _ ht => h.holds_replace ht hv
  delete _ _ := builtinRegime.comp_editTable fun h _ ht => h.holds_erase ht
  lendEntries _ := Regime.comp_act_total fun _ hst _ =>
    ⟨trivial, _, Nat.le_refl _, hst, fun e he => by
      obtain ⟨hk, hv⟩ := hst.1.table _ e (Logic.sortedEntries_mem he)
      exact ⟨hk, hk, hv⟩⟩
  detachKey := builtinRegime.comp_detachKey
  newScope := builtinRegime.comp_newScope
  lookup _ := builtinRegime.comp_lookup
  declare hs hv := builtinRegime.comp_binding hv fun _ _ hi hr hb =>
    ScopeTree.declareIn_builtin hi hr hs hb
  assign hs hv := builtinRegime.comp_binding hv fun _ _ hi hr hb =>
    ScopeTree.assignIn_builtin hi hr hs hb
  newIdentity := Regime.comp_act_aside (fun _ => rfl) (fun _ => rfl) (fun _ _ _ => trivial)
    fun _ _ => trivial
  print := Regime.comp_act_aside (fun _ => rfl) (fun _ => rfl) (fun _ _ _ => trivial)
    fun _ _ => trivial

/-- The logic admits every statement. -/
theorem builtinLogic.admits (stmt : Stmt) : builtinLogic.Admits stmt :=
  ⟨fun _ _ => trivial, fun _ _ => trivial⟩

/-- The built-in names stay intact in every session. -/
theorem builtinRegime.governs : builtinRegime.Governs where
  initial hashing := ⟨(0 : Nat), Heap.holds_empty hashing, ScopeTree.intact_globalScopes,
    ScopeTree.rooted_globalScopes⟩
  evalLast n _ _ := Logic.weaken (L := builtinLogic)
    (Logic.evalLast (L := builtinLogic) (w := n) (Nat.zero_le n) fun stmt _ =>
      builtinLogic.admits stmt)
    fun _ _ _ _ => trivial
  evalProgram n _ _ := Logic.weaken (L := builtinLogic)
    (Logic.evalProgram (L := builtinLogic) (w := n) (Nat.zero_le n) fun stmt _ =>
      builtinLogic.admits stmt)
    fun _ _ _ _ => trivial

end AtomScript
