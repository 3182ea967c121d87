import AtomScript.Proofs.Eval.Logic

/-!
# The built-in functions in a logic of computations

Every built-in function is put together from the primitives, so every logic has a rule for it: on
arguments that may be at large it gives a value that may be at large (`Logic.native`).  The
functions that call back ask the same of the caller they are given.

What a function returns is either plain, or one of its arguments, or read from one of them, or new.
-/

namespace AtomScript

/-- The cell of a sequence is the cell of the value. -/
theorem ref?_of_sequenceRef? {kind : SequenceKind} {v : Value} {r : Ref}
    (h : Native.sequenceRef? kind v = some r) : v.ref? = some r := by
  unfold Native.sequenceRef? at h
  split at h
  · exact h
  · exact h
  · exact absurd h (by simp)

/-- An operator gives a plain value, whatever it is applied to. -/
theorem isPlain_apply (h : Heap) (op : BinaryOp) (a b : Value) :
    (op.apply h a b).isPlain = true := by
  unfold BinaryOp.apply
  split
  · cases op <;> rfl
  · cases op <;> rfl
  all_goals first | (split <;> rfl) | rfl

namespace Logic

variable {L : Logic} {w : L.World}

open Native

/-! ### Arguments -/

/-- The check of the number of arguments. -/
theorem checkArity {f : Native} {args : List Value} :
    L.Comp w (fun _ _ => True) (f.checkArity args) := by
  unfold Native.checkArity
  split
  · exact L.pure trivial
  · exact fail_proper rfl

/-- The error about unsuitable arguments. -/
theorem invalid {α : Type} {Q : L.World → α → Prop} {f : Native} {args : List Value} :
    L.Comp w Q (f.invalid args) := fail_proper rfl

/-- The check of an index. -/
theorem checkIndex {f : Native} {i : Number} {n : Nat} :
    L.Comp w (fun _ _ => True) (f.checkIndex i n) := by
  unfold Native.checkIndex
  split
  · split
    · exact L.pure trivial
    · exact fail_proper rfl
  · exact fail_proper rfl

/-- The check of a place to insert at. -/
theorem checkGap {f : Native} {i : Number} {n : Nat} :
    L.Comp w (fun _ _ => True) (f.checkGap i n) := by
  unfold Native.checkGap
  split
  · split
    · exact L.pure trivial
    · exact fail_proper rfl
  · exact fail_proper rfl

/-! ### Sequences -/

/-- A new tuple or list. -/
theorem newSequence {kind : SequenceKind} {vs : List Value} (h : L.Vals w vs) :
    L.Comp w L.Val (Native.newSequence kind vs) := by
  cases kind with
  | tuple => exact L.newTuple h
  | list => exact L.newList h

/-- What is read from an array of values is a value. -/
theorem val_getD {xs : Array Value} {p : Nat} (h : L.Vals w xs.toList) :
    L.Val w (xs.getD p .null) := by
  -- outside the array there is only null
  rw [Array.getD_eq_getD_getElem?]
  cases hp : xs[p]? with
  | none => exact L.val_plain rfl
  | some x => exact h x (by simpa using Array.mem_of_getElem? hp)

/-- An edit in place, after which the sequence itself is given back. -/
theorem editItems_pure {v s : Value} {r : Ref} {f : Array Value → Array Value}
    (hs : L.Val w s) (hr : s.ref? = some r)
    (hf : ∀ xs : Array Value, ∀ x ∈ f xs, x ∈ xs ∨ x = v) (hv : L.Val w v) :
    L.Comp w L.Val (do Eval.editItems r f; return s) := by
  refine L.bind (L.editItems hs hr fun xs x hx => ?_) fun w₁ _ h₁ _ => ?_
  · rcases hf xs x hx with hx | rfl
    · exact .inl hx
    · exact .inr hv
  · exact L.pure (L.val_mono h₁ hs)

/-- The operations on tuples and lists. -/
theorem runSequence {kind : SequenceKind} {op : SequenceOp} {args : List Value}
    (hargs : L.Vals w args) : L.Comp w L.Val (Native.runSequence kind op args) := by
  unfold Native.runSequence
  refine L.bind checkArity fun w₁ _ h₁ _ => ?_
  replace hargs := hargs.mono h₁
  split
  · next s i =>
    -- at: what is read was an element
    split
    · next r hr =>
      refine L.bind (items_vals (hargs s (by simp)) (ref?_of_sequenceRef? hr))
        fun w₂ xs h₂ hxs => ?_
      refine L.bind checkIndex fun w₃ p h₃ _ => ?_
      exact L.pure (L.val_mono h₃ (val_getD hxs))
    · exact invalid
  · next s v =>
    -- append
    split
    · next r hr =>
      refine editItems_pure (hargs s (by simp)) (ref?_of_sequenceRef? hr) (fun xs x hx => ?_)
        (hargs v (by simp))
      exact Array.mem_push.1 hx
    · exact invalid
  · next s i =>
    -- delete_at: nothing comes in
    split
    · next r hr =>
      refine L.bind reading_any fun w₂ xs h₂ _ => ?_
      refine L.bind checkIndex fun w₃ p h₃ _ => ?_
      refine editItems_pure (hargs.mono (L.le_trans h₂ h₃) s (by simp)) (ref?_of_sequenceRef? hr)
        (fun xs x hx => ?_) (L.val_plain (v := .null) rfl)
      rw [← Array.mem_toList_iff, Array.toList_eraseIdxIfInBounds] at hx
      exact .inl (Array.mem_toList_iff.1 (List.mem_of_mem_eraseIdx hx))
    · exact invalid
  · next s i v =>
    -- insert_at; outside the bounds it does nothing
    split
    · next r hr =>
      refine L.bind reading_any fun w₂ xs h₂ _ => ?_
      refine L.bind checkGap fun w₃ p h₃ _ => ?_
      have hargs₃ := hargs.mono (L.le_trans h₂ h₃)
      refine editItems_pure (hargs₃ s (by simp)) (ref?_of_sequenceRef? hr) (fun xs x hx => ?_)
        (hargs₃ v (by simp))
      unfold Array.insertIdxIfInBounds at hx
      split at hx
      · exact (Array.mem_insertIdx.1 hx).symm
      · exact .inl hx
    · exact invalid
  · next s =>
    -- conversion: a new cell of the other kind, with the same elements
    split
    · next r hr =>
      refine L.bind (items_vals (hargs s (by simp)) (ref?_of_sequenceRef? hr))
        fun w₂ xs h₂ hxs => ?_
      exact newSequence hxs
    · exact invalid
  · exact invalid

/-- The size of a tuple. -/
theorem runTupleSize {args : List Value} : L.Comp w L.Val (Native.runTupleSize args) := by
  unfold Native.runTupleSize
  refine L.bind checkArity fun w₁ _ h₁ _ => ?_
  split
  · exact L.bind reading_any fun _ _ _ _ => L.pure (L.val_plain rfl)
  · exact invalid

/-- Taking the last element of a list. -/
theorem runListPop {args : List Value} (hargs : L.Vals w args) :
    L.Comp w L.Val (Native.runListPop args) := by
  unfold Native.runListPop
  refine L.bind checkArity fun w₁ _ h₁ _ => ?_
  replace hargs := hargs.mono h₁
  split
  · next r =>
    have hr : L.Val w₁ (.list r) := hargs _ (by simp)
    refine L.bind (items_vals hr rfl) fun w₂ xs h₂ hxs => ?_
    split
    · next last hlast =>
      -- the last element is read before it is taken out, and is returned with the list
      have hv : L.Val w₂ last := hxs last (by simpa using Array.mem_of_back? hlast)
      refine L.bind (L.editItems (L.val_mono h₂ hr) rfl fun ys y hy => ?_) fun w₃ _ h₃ _ => ?_
      · rw [← Array.mem_toList_iff, Array.toList_pop] at hy
        exact .inl (Array.mem_toList_iff.1 (List.dropLast_subset _ hy))
      · exact L.newTuple (vals_pair (L.val_mono h₃ hv) (L.val_mono (L.le_trans h₂ h₃) hr))
    · exact fail_proper rfl
  · exact invalid

/-! ### Maps -/

/-- A listing has only entries of the table. -/
theorem sortedEntries_mem {st : State} {r : Ref} {e : Entry}
    (h : e ∈ st.heap.sortedEntries r) : e ∈ (st.heap.table r).entries := by
  unfold Heap.sortedEntries at h
  simpa using h

/-- The values of a map, in the order of their keys. -/
theorem sortedValues {r : Ref} (hr : L.Val w (.map r)) :
    L.Comp w L.Vals (Native.sortedValues r) := by
  refine L.reading fun st hst v hv => ?_
  obtain ⟨e, he, rfl⟩ := List.mem_map.1 hv
  exact (L.entries hst hr e (sortedEntries_mem he)).2

/-- A change of a map that is only made when the key is there. -/
theorem edit_if_present {r : Ref} {k : Value} {f : Native} {edit : Eval Unit}
    (hr : L.Val w (.map r)) (hedit : ∀ w', L.le w w' → L.Comp w' (fun _ _ => True) edit) :
    L.Comp w L.Val (do
      if ← Eval.reading fun st => st.heap.contains (st.heap.table r) k then
        edit
        return .map r
      else Eval.fail (.missingKey f (← Eval.inspect k))) := by
  refine L.bind reading_any fun w₁ present h₁ _ => ?_
  split
  · refine L.bind (hedit w₁ h₁) fun w₂ _ h₂ _ => ?_
    exact L.pure (L.val_mono (L.le_trans h₁ h₂) hr)
  · exact fail_after fun _ => rfl

/-- A fresh pair for each entry. -/
theorem newPairs {es : List Entry} (hes : ∀ e ∈ es, L.Val w e.key ∧ L.Val w e.value) :
    L.Comp w L.Vals (Eval.mapAll (fun e => Eval.newTuple [e.key, e.value]) es) := by
  refine mapAll_vals fun w' e hle he => ?_
  obtain ⟨hk, hv⟩ := hes e he
  exact L.newTuple (vals_pair (L.val_mono hle hk) (L.val_mono hle hv))

/-- The operations on maps. -/
theorem runMap {op : MapOp} {args : List Value} (hargs : L.Vals w args) :
    L.Comp w L.Val (Native.runMap op args) := by
  unfold Native.runMap
  refine L.bind checkArity fun w₁ _ h₁ _ => ?_
  replace hargs := hargs.mono h₁
  split
  · next r k =>
    -- delete: the probe is detached like a key that is stored
    have hr : L.Val w₁ (.map r) := hargs _ (by simp)
    refine L.bind (L.detachKey (hargs k (by simp))) fun w₂ key h₂ hkey => ?_
    refine edit_if_present (L.val_mono h₂ hr) fun w₃ h₃ => ?_
    exact L.delete (L.val_mono (L.le_trans h₂ h₃) hr) (L.key_mono h₃ hkey)
  · next r k =>
    -- nothing is stored by a look-up, so the probe may be any value
    have hr : L.Val w₁ (.map r) := hargs _ (by simp)
    refine L.bind (Q := fun w' (o : Option Value) => ∀ v ∈ o, L.Val w' v) ?_ ?_
    · refine L.reading fun st hst v hv => ?_
      obtain ⟨e, he, rfl⟩ := Option.map_eq_some_iff.1 hv
      exact (L.entries hst hr e (List.mem_of_find?_eq_some he)).2
    · intro w₂ o h₂ ho
      cases o with
      | none => exact L.pure (L.val_plain rfl)
      | some v => exact L.pure (ho v rfl)
  · next r k v =>
    -- replace
    have hr : L.Val w₁ (.map r) := hargs _ (by simp)
    refine L.bind (L.detachKey (hargs k (by simp))) fun w₂ key h₂ hkey => ?_
    refine edit_if_present (L.val_mono h₂ hr) fun w₃ h₃ => ?_
    have h₁₃ := L.le_trans h₂ h₃
    exact L.replace (L.val_mono h₁₃ hr) (L.key_mono h₃ hkey) (L.val_mono h₁₃ (hargs v (by simp)))
  · next r k v =>
    -- put
    have hr : L.Val w₁ (.map r) := hargs _ (by simp)
    refine L.bind (L.detachKey (hargs k (by simp))) fun w₂ key h₂ hkey => ?_
    refine L.bind (L.put (L.val_mono h₂ hr) hkey (L.val_mono h₂ (hargs v (by simp))))
      fun w₃ _ h₃ _ => ?_
    exact L.pure (L.val_mono (L.le_trans h₂ h₃) hr)
  · next r =>
    -- keys: the stored keys themselves are given out
    refine L.bind (L.lendEntries (hargs _ (by simp))) fun w₂ es h₂ hes => ?_
    refine L.newList fun v hv => ?_
    obtain ⟨e, he, rfl⟩ := List.mem_map.1 hv
    exact (hes e he).2.1
  · next r =>
    refine L.bind (sortedValues (hargs _ (by simp))) fun w₂ vs h₂ hvs => ?_
    exact L.newList hvs
  · next r =>
    -- to_list: so are they here, in pairs with their values
    refine L.bind (L.lendEntries (hargs _ (by simp))) fun w₂ es h₂ hes => ?_
    exact L.bind (newPairs fun e he => (hes e he).2) fun w₃ vs h₃ hvs => L.newList hvs
  · exact invalid

/-! ### Walks

The walks call back, and what is known of the callback is known in every later world. -/

/-- The two members of a pair may be at large when the pair may. -/
theorem asPair {f : Native} {v : Value} (hv : L.Val w v) :
    L.Comp w (fun w' p => L.Val w' p.1 ∧ L.Val w' p.2) (Native.asPair f v) := by
  unfold Native.asPair
  split
  · next r =>
    refine L.bind (items_vals hv rfl) fun w₁ xs h₁ hxs => ?_
    split
    · next key value heq =>
      rw [heq] at hxs
      exact L.pure ⟨hxs key (by simp), hxs value (by simp)⟩
    · exact fail_after fun _ => rfl
  · exact fail_after fun _ => rfl

/-- Adding an entry to a table that is being built. -/
theorem addEntry {t : Table} {k v : Value} (ht : L.Tab w t) (hk : L.Key w k) (hv : L.Val w v) :
    L.Comp w L.Tab (Native.addEntry t k v) :=
  L.reading fun _ hst => L.tab_insert hst ht hk hv

/-- Keeping the values that pass a test. -/
theorem filterAll {test : Value → Eval Bool} {vs : List Value} (hvs : L.Vals w vs)
    (htest : ∀ w' v, L.le w w' → L.Val w' v → L.Comp w' (fun _ _ => True) (test v)) :
    L.Comp w L.Vals (Native.filterAll test vs) := by
  induction vs generalizing w with
  | nil =>
    unfold Native.filterAll
    exact L.pure vals_nil
  | cons v vs ih =>
    have hv : L.Val w v := hvs v List.mem_cons_self
    have htail : L.Vals w vs := fun u hu => hvs u (List.mem_cons_of_mem v hu)
    unfold Native.filterAll
    -- the rest is tested in the worlds after this test
    refine L.bind (htest w v (L.le_refl w) hv) fun w₁ keep h₁ _ => ?_
    refine L.bind (ih (htail.mono h₁) fun w' u hle hu => ?_) fun w₂ rest h₂ hrest => ?_
    · exact htest w' u (L.le_trans h₁ hle) hu
    · split
      · exact L.pure (vals_cons (L.val_mono (L.le_trans h₁ h₂) hv) hrest)
      · exact L.pure hrest

/-- Adding up numbers. -/
theorem sumNumbers {f : Native} {total : Number} {vs : List Value} :
    L.Comp w (fun _ _ => True) (Native.sumNumbers f total vs) := by
  fun_induction Native.sumNumbers f total vs with
  | case1 => exact L.pure trivial
  | case2 total x vs ih => exact ih
  | case3 => exact fail_after fun _ => rfl

/-- Sorting values gives only values. -/
theorem vals_sortValues {h : Heap} {vs : List Value} (hvs : L.Vals w vs) :
    L.Vals w (h.sortValues vs) := by
  intro v hv
  unfold Heap.sortValues at hv
  exact hvs v (by simpa using hv)

section Walk

variable {call : Caller}

/-- The operations on collections, if the calls they make obey the logic. -/
theorem runEnum {op : EnumOp} {args : List Value} (hargs : L.Vals w args)
    (hcall : ∀ w' v vs, L.le w w' → L.Val w' v → L.Vals w' vs → L.Comp w' L.Val (call v vs)) :
    L.Comp w L.Val (Native.runEnum call op args) := by
  unfold Native.runEnum
  refine L.bind checkArity fun w₁ _ h₁ _ => ?_
  replace hargs := hargs.mono h₁
  -- what is known of the callback is known from the later world on
  replace hcall : ∀ w' v vs, L.le w₁ w' → L.Val w' v → L.Vals w' vs →
      L.Comp w' L.Val (call v vs) := fun w' v vs hle => hcall w' v vs (L.le_trans h₁ hle)
  split
  · next r callback =>
    -- map over a list
    have hf : L.Val w₁ callback := hargs callback (by simp)
    split
    · refine L.bind (items_vals (hargs (.list r) (by simp)) rfl) fun w₂ xs h₂ hxs => ?_
      refine L.bind (mapAll_vals fun w' v hle hv => ?_) fun w₃ vs h₃ hvs => L.newList hvs
      have h₁' := L.le_trans h₂ hle
      exact hcall w' callback [v] h₁' (L.val_mono h₁' hf)
        (vals_cons (L.val_mono hle (hxs v hv)) vals_nil)
    · exact invalid
  · next r callback =>
    -- map over a map: the callback gives pairs, whose first members become keys
    have hf : L.Val w₁ callback := hargs callback (by simp)
    split
    · refine L.bind (L.lendEntries (hargs _ (by simp))) fun w₂ es h₂ hes => ?_
      refine L.bind (foldAll (Q := L.Tab) (fun w' t e hle he ht => ?_) L.tab_withRoom)
        fun w₃ t h₃ ht => L.newMap ht
      obtain ⟨-, hk, hv⟩ := hes e he
      have h₁' := L.le_trans h₂ hle
      have hpair := vals_pair (L.val_mono hle hk) (L.val_mono hle hv)
      refine L.bind (hcall w' callback _ h₁' (L.val_mono h₁' hf) hpair) fun w₄ u h₄ hu => ?_
      refine L.bind (asPair hu) fun w₅ p h₅ hp => ?_
      refine L.bind (L.detachKey hp.1) fun w₆ key h₆ hkey => ?_
      exact addEntry (L.tab_mono (L.le_trans h₄ (L.le_trans h₅ h₆)) ht) hkey
        (L.val_mono h₆ hp.2)
    · exact invalid
  · next r callback =>
    -- filter a list
    have hf : L.Val w₁ callback := hargs callback (by simp)
    split
    · refine L.bind (items_vals (hargs (.list r) (by simp)) rfl) fun w₂ xs h₂ hxs => ?_
      refine L.bind (filterAll hxs fun w' v hle hv => ?_) fun w₃ vs h₃ hvs => L.newList hvs
      have h₁' := L.le_trans h₂ hle
      exact L.bind (hcall w' callback [v] h₁' (L.val_mono h₁' hf) (vals_cons hv vals_nil))
        fun _ _ _ _ => L.pure trivial
    · exact invalid
  · next r callback =>
    -- filter a map: the new map stores the very keys of the old one
    have hf : L.Val w₁ callback := hargs callback (by simp)
    split
    · refine L.bind (L.lendEntries (hargs _ (by simp))) fun w₂ es h₂ hes => ?_
      refine L.bind (foldAll (Q := L.Tab) (fun w' t e hle he ht => ?_) L.tab_withRoom)
        fun w₃ t h₃ ht => L.newMap ht
      obtain ⟨hkey, hk, hv⟩ := hes e he
      have h₁' := L.le_trans h₂ hle
      have hpair := vals_pair (L.val_mono hle hk) (L.val_mono hle hv)
      refine L.bind (hcall w' callback _ h₁' (L.val_mono h₁' hf) hpair) fun w₄ u h₄ hu => ?_
      split
      · exact addEntry (L.tab_mono h₄ ht) (L.key_mono (L.le_trans hle h₄) hkey)
          (L.val_mono (L.le_trans hle h₄) hv)
      · exact L.pure (L.tab_mono h₄ ht)
    · exact invalid
  · next r start callback =>
    -- reduce a list
    have hf : L.Val w₁ callback := hargs callback (by simp)
    split
    · refine L.bind (items_vals (hargs (.list r) (by simp)) rfl) fun w₂ xs h₂ hxs => ?_
      refine foldAll (fun w' acc v hle hv hacc => ?_) (L.val_mono h₂ (hargs start (by simp)))
      have h₁' := L.le_trans h₂ hle
      have hpair := vals_pair (L.val_mono hle (hxs v hv)) hacc
      exact hcall w' callback _ h₁' (L.val_mono h₁' hf) hpair
    · exact invalid
  · next r start callback =>
    -- reduce a map: all the pairs are made before the first callback
    have hf : L.Val w₁ callback := hargs callback (by simp)
    split
    · refine L.bind (L.lendEntries (hargs _ (by simp))) fun w₂ es h₂ hes => ?_
      refine L.bind (newPairs fun e he => (hes e he).2) fun w₃ pairs h₃ hpairs => ?_
      have h₁₃ := L.le_trans h₂ h₃
      refine foldAll (fun w' acc v hle hv hacc => ?_) (L.val_mono h₁₃ (hargs start (by simp)))
      have h₁' := L.le_trans h₁₃ hle
      have hpair := vals_pair (L.val_mono hle (hpairs v hv)) hacc
      exact hcall w' callback _ h₁' (L.val_mono h₁' hf) hpair
    · exact invalid
  · next r =>
    refine L.bind reading_any fun w₂ xs h₂ _ => ?_
    exact L.bind sumNumbers fun _ _ _ _ => L.pure (L.val_plain rfl)
  · next r =>
    refine L.bind (Q := L.Vals) (L.reading fun st hst => vals_sortValues fun v hv => ?_)
      fun w₂ vs h₂ hvs => L.newList hvs
    exact L.items hst (hargs (.list r) (by simp)) rfl v (by simpa using hv)
  · exact invalid

end Walk

/-! ### Plain functions -/

/-- The operations on strings. -/
theorem runText {op : TextOp} {args : List Value} : L.Comp w L.Val (Native.runText op args) := by
  unfold Native.runText
  refine L.bind checkArity fun w₁ _ h₁ _ => ?_
  split
  -- all are plain but the pieces of a split, which come in a new list
  case h_6 s separator =>
    refine L.newList fun v hv => ?_
    obtain ⟨piece, -, rfl⟩ := List.mem_map.1 hv
    exact L.val_plain rfl
  case h_9 => exact invalid
  all_goals exact L.pure (L.val_plain rfl)

/-- The operations on numbers. -/
theorem runNumber {op : NumberOp} {args : List Value} :
    L.Comp w L.Val (Native.runNumber op args) := by
  unfold Native.runNumber
  refine L.bind checkArity fun w₁ _ h₁ _ => ?_
  split
  case h_6 s =>
    split
    · exact L.pure (L.val_plain rfl)
    · exact L.pure (L.val_plain rfl)
  case h_7 => exact invalid
  all_goals exact L.pure (L.val_plain rfl)

/-- The length of a collection. -/
theorem runLen {args : List Value} : L.Comp w L.Val (Native.runLen args) := by
  unfold Native.runLen
  refine L.bind checkArity fun w₁ _ h₁ _ => ?_
  split
  case h_4 s => exact L.pure (L.val_plain rfl)
  case h_5 => exact invalid
  all_goals exact L.bind reading_any fun _ _ _ _ => L.pure (L.val_plain rfl)

/-- The tests of kinds. -/
theorem runTest {kind : KindTest} {args : List Value} :
    L.Comp w L.Val (Native.runTest kind args) := by
  unfold Native.runTest
  refine L.bind checkArity fun w₁ _ h₁ _ => ?_
  split
  · exact L.pure (L.val_plain rfl)
  · exact invalid

/-- Printing. -/
theorem runPrint {args : List Value} : L.Comp w L.Val (Native.runPrint args) := by
  unfold Native.runPrint
  refine L.bind (mapAll (Q := fun _ _ => True) (fun _ _ => trivial) fun _ _ _ _ => inspect)
    fun w₁ _ h₁ _ => ?_
  exact L.bind L.print fun _ _ _ _ => L.pure (L.val_plain rfl)

/-- The date. -/
theorem runDate : L.Comp w L.Val Native.runDate := by
  unfold Native.runDate
  exact L.bind L.print fun _ _ _ _ => L.pure (L.val_plain rfl)

/-- **Every built-in function**, on arguments that may be at large, gives a value that may. -/
theorem native {call : Caller} {f : Native} {args : List Value} (hargs : L.Vals w args)
    (hcall : ∀ w' v vs, L.le w w' → L.Val w' v → L.Vals w' vs → L.Comp w' L.Val (call v vs)) :
    L.Comp w L.Val (f.run call args) := by
  cases f with
  | print => exact runPrint
  | date => exact runDate
  | len => exact runLen
  | test kind => exact runTest
  | sequence kind op => exact runSequence hargs
  | tupleSize => exact runTupleSize
  | listPop => exact runListPop hargs
  | map op => exact runMap hargs
  | enum op => exact runEnum hargs hcall
  | text op => exact runText
  | number op => exact runNumber

end Logic

end AtomScript
