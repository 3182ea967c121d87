import Mathlib.Data.List.Basic
import Mathlib.Data.List.InsertIdx
import AtomScript.Library.Dispatch
import AtomScript.Proofs.Mirror.Basic

/-!
# Built-in functions mirror themselves

A built-in function, called with shifted arguments, does to a shifted state what it does to the
state itself (`Native.mirrors_run`), provided that what it calls back does so.  Addresses and
identities can only be passed on, compared for equality, or looked up.
-/

namespace AtomScript.Native

open Eval

variable {σ : Shift} {α β : Type}

/-! ### Arguments -/

/-- The arguments are looked at only if there are as many as there should be. -/
theorem mirrors_checkArity_bind (f : Native) (args : List Value) {x y : Unit → Eval Value}
    (hxy : args.length = f.arity → Mirrors σ σ.value (x ()) (y ())) :
    Mirrors σ σ.value (f.checkArity args >>= x) (f.checkArity (args.map σ.value) >>= y) := by
  unfold checkArity
  rw [List.length_map]
  split
  · next harity => exact hxy harity
  · exact mirrors_fail _

/-- The error about unsuitable arguments names their kinds only. -/
theorem mirrors_invalid {g : α → β} (f : Native) (args : List Value) :
    Mirrors σ g (f.invalid args) (f.invalid (args.map σ.value)) := by
  have hkinds : (args.map σ.value).map Value.kind = args.map Value.kind := by
    rw [List.map_map]
    exact List.map_congr_left fun v _ => σ.kind_value v
  unfold invalid
  rw [hkinds]
  exact mirrors_fail _

/-- The check of an index does not look at the heap. -/
theorem mirrors_checkIndex (f : Native) (index : Number) (size : Nat) :
    Mirrors σ id (f.checkIndex index size) (f.checkIndex index size) := by
  unfold checkIndex
  split
  · split
    · exact mirrors_pure _
    · exact mirrors_fail _
  · exact mirrors_fail _

/-- The check of a place to insert at does not look at the heap. -/
theorem mirrors_checkGap (f : Native) (index : Number) (size : Nat) :
    Mirrors σ id (f.checkGap index size) (f.checkGap index size) := by
  unfold checkGap
  split
  · split
    · exact mirrors_pure _
    · exact mirrors_fail _
  · exact mirrors_fail _

/-- The cell of a shifted sequence is the shifted cell. -/
theorem sequenceRef?_value (kind : SequenceKind) (v : Value) :
    sequenceRef? kind (σ.value v) = (sequenceRef? kind v).map (σ.cells + ·) := by
  cases kind <;> cases v <;> rfl

/-! ### Sequences -/

/-- A new sequence of shifted values is the shifted new sequence. -/
theorem mirrors_newSequence (kind : SequenceKind) (vs : List Value) :
    Mirrors σ σ.value (newSequence kind vs) (newSequence kind (vs.map σ.value)) := by
  cases kind with
  | tuple => exact mirrors_newTuple vs
  | list => exact mirrors_newList vs

/-- What is done with the cell of a sequence, if the value is one. -/
theorem mirrors_sequenceRef? (kind : SequenceKind) (v : Value) {x y : Ref → Eval Value}
    {z w : Eval Value} (hxy : ∀ r, Mirrors σ σ.value (x r) (y (σ.cells + r)))
    (hzw : Mirrors σ σ.value z w) :
    Mirrors σ σ.value
      (match sequenceRef? kind v with
        | some r => x r
        | none => z)
      (match sequenceRef? kind (σ.value v) with
        | some r => y r
        | none => w) := by
  rw [sequenceRef?_value]
  cases sequenceRef? kind v with
  | none => exact hzw
  | some r => exact hxy r

/-- Reading from shifted elements reads a shifted element. -/
theorem getD_map_value (xs : Array Value) (p : Nat) :
    (xs.map σ.value).getD p .null = σ.value (xs.getD p .null) := by
  rw [Array.getD_eq_getD_getElem?, Array.getD_eq_getD_getElem?, Array.getElem?_map]
  exact Option.getD_map σ.value .null _

/-- Removing from shifted elements removes the same one. -/
theorem eraseIdx_map_value (p : Nat) (xs : Array Value) :
    (xs.map σ.value).eraseIdxIfInBounds p = (xs.eraseIdxIfInBounds p).map σ.value := by
  obtain ⟨vs⟩ := xs
  simp [List.eraseIdx_map]

/-- Inserting into shifted elements inserts at the same place. -/
theorem insertIdx_map_value (p : Nat) (v : Value) (xs : Array Value) :
    (xs.map σ.value).insertIdxIfInBounds p (σ.value v) =
      (xs.insertIdxIfInBounds p v).map σ.value := by
  obtain ⟨vs⟩ := xs
  simp [List.map_insertIdx]

/-- The operations on tuples and lists. -/
theorem mirrors_runSequence (kind : SequenceKind) (op : SequenceOp) (args : List Value) :
    Mirrors σ σ.value (runSequence kind op args) (runSequence kind op (args.map σ.value)) := by
  refine mirrors_checkArity_bind _ args fun harity => ?_
  -- an operation looks at the cell of the sequence and, past the check, at one position
  cases op with
  | get =>
    obtain ⟨s, i, rfl⟩ := List.length_eq_two.1 harity
    cases i with
    | number i =>
      refine mirrors_sequenceRef? kind s (fun r => ?_) (mirrors_invalid _ [s, .number i])
      refine (mirrors_items r).bind fun xs => ?_
      rw [Array.size_map]
      refine (mirrors_checkIndex _ i xs.size).bind fun p => ?_
      rw [getD_map_value]
      exact mirrors_pure _
    | _ => exact mirrors_invalid _ [s, _]
  | append =>
    obtain ⟨s, v, rfl⟩ := List.length_eq_two.1 harity
    refine mirrors_sequenceRef? kind s (fun r => ?_) (mirrors_invalid _ [s, v])
    refine (mirrors_editItems (fun xs => Array.map_push.symm) r).bind fun _ => ?_
    exact mirrors_pure s
  | deleteAt =>
    obtain ⟨s, i, rfl⟩ := List.length_eq_two.1 harity
    cases i with
    | number i =>
      refine mirrors_sequenceRef? kind s (fun r => ?_) (mirrors_invalid _ [s, .number i])
      refine (mirrors_items r).bind fun xs => ?_
      rw [Array.size_map]
      refine (mirrors_checkIndex _ i xs.size).bind fun p => ?_
      refine (mirrors_editItems (eraseIdx_map_value p) r).bind fun _ => ?_
      exact mirrors_pure s
    | _ => exact mirrors_invalid _ [s, _]
  | insertAt =>
    obtain ⟨s, i, v, rfl⟩ := List.length_eq_three.1 harity
    cases i with
    | number i =>
      refine mirrors_sequenceRef? kind s (fun r => ?_) (mirrors_invalid _ [s, .number i, v])
      refine (mirrors_items r).bind fun xs => ?_
      rw [Array.size_map]
      refine (mirrors_checkGap _ i xs.size).bind fun p => ?_
      refine (mirrors_editItems (insertIdx_map_value p v) r).bind fun _ => ?_
      exact mirrors_pure s
    | _ => exact mirrors_invalid _ [s, _, v]
  | convert =>
    obtain ⟨s, rfl⟩ := List.length_eq_one_iff.1 harity
    refine mirrors_sequenceRef? kind s (fun r => ?_) (mirrors_invalid _ [s])
    refine (mirrors_items r).bind fun xs => ?_
    rw [Array.toList_map]
    exact mirrors_newSequence kind.other xs.toList

/-- The size of a tuple. -/
theorem mirrors_runTupleSize (args : List Value) :
    Mirrors σ σ.value (runTupleSize args) (runTupleSize (args.map σ.value)) := by
  refine mirrors_checkArity_bind _ args fun harity => ?_
  obtain ⟨s, rfl⟩ := List.length_eq_one_iff.1 harity
  cases s with
  | tuple r =>
    refine (mirrors_items r).bind fun xs => ?_
    rw [Array.size_map]
    exact mirrors_pure (Value.number _)
  | _ => exact mirrors_invalid _ [_]

/-- Taking the last element of a list. -/
theorem mirrors_runListPop (args : List Value) :
    Mirrors σ σ.value (runListPop args) (runListPop (args.map σ.value)) := by
  refine mirrors_checkArity_bind _ args fun harity => ?_
  obtain ⟨s, rfl⟩ := List.length_eq_one_iff.1 harity
  cases s with
  | list r =>
    refine (mirrors_items r).bind fun xs => ?_
    rw [Array.back?_map]
    cases xs.back? with
    -- what is left of the list keeps its address, so the pair has the shifted list
    | none => exact mirrors_fail _
    | some last =>
      refine (mirrors_editItems (fun xs => Array.map_pop.symm) r).bind fun _ => ?_
      exact mirrors_newTuple [last, .list r]
  | _ => exact mirrors_invalid _ [_]

/-! ### Maps -/

/-- The values of a map come in the same order: sorting never looks at an address. -/
theorem mirrors_sortedValues (r : Ref) :
    Mirrors σ (List.map σ.value) (sortedValues r) (sortedValues (σ.cells + r)) := by
  refine mirrors_reading fun st st' hst => ?_
  rw [hst.heap.sortedEntries, List.map_map, List.map_map]
  rfl

/-- The entries of a map are lent in the same order. -/
theorem mirrors_lendEntries (r : Ref) :
    Mirrors σ (List.map σ.entry) (lendEntries r) (lendEntries (σ.cells + r)) := by
  refine mirrors_act fun st st' hst => ⟨?_, hst⟩
  change Ending.value (st'.heap.sortedEntries (σ.cells + r)) = _
  rw [hst.heap.sortedEntries]
  rfl

/-- The same keys are found in a shifted map. -/
theorem mirrors_contains (r : Ref) (key : Value) :
    Mirrors σ id (reading fun st => st.heap.contains (st.heap.table r) key)
      (reading fun st => st.heap.contains (st.heap.table (σ.cells + r)) (σ.value key)) := by
  refine mirrors_reading fun st st' hst => ?_
  rw [hst.heap.table, hst.heap.contains]
  rfl

/-- The pairs of a listing, entry by entry. -/
theorem mirrors_newPairs (es : List Entry) :
    Mirrors σ (List.map σ.value) (mapAll (fun e => newTuple [e.key, e.value]) es)
      (mapAll (fun e => newTuple [e.key, e.value]) (es.map σ.entry)) :=
  mirrors_mapAll (q := fun e : Entry => newTuple [e.key, e.value])
    (fun e => mirrors_newTuple [e.key, e.value]) es

/-- A change of the entry of a key that is there. -/
theorem mirrors_edit_if_present (f : Native) (event : Ref → Event) (r : Ref) (key : Value)
    {edit edit' : Heap → Table → Table}
    (hedit : ∀ h h' t, h.Shifted σ h' → edit' h' (σ.table t) = σ.table (edit h t)) :
    Mirrors σ σ.value
      (do
        if ← reading fun st => st.heap.contains (st.heap.table r) key then
          editTable event r edit
          return .map r
        else fail (.missingKey f (← inspect key)))
      (do
        if ← reading fun st => st.heap.contains (st.heap.table (σ.cells + r)) (σ.value key) then
          editTable event (σ.cells + r) edit'
          return .map (σ.cells + r)
        else fail (.missingKey f (← inspect (σ.value key)))) := by
  -- the key is filed on both sides or missing on both
  refine (mirrors_contains r key).bind fun present => ?_
  cases present with
  | true =>
    refine (mirrors_editTable event hedit r).bind fun _ => ?_
    exact mirrors_pure (Value.map r)
  | false => exact (mirrors_inspect key).bind fun text => mirrors_fail _

/-- The operations on maps. -/
theorem mirrors_runMap (op : MapOp) (args : List Value) :
    Mirrors σ σ.value (runMap op args) (runMap op (args.map σ.value)) := by
  refine mirrors_checkArity_bind _ args fun harity => ?_
  -- the key is detached before the table is looked at, except where a value is only read
  cases op with
  | delete =>
    obtain ⟨m, k, rfl⟩ := List.length_eq_two.1 harity
    cases m with
    | map r =>
      refine (mirrors_detachKey k).bind fun key => ?_
      exact mirrors_edit_if_present _ .delete r key fun h h' t hh => hh.erase t key
    | _ => exact mirrors_invalid _ [_, k]
  | fetch =>
    obtain ⟨m, k, rfl⟩ := List.length_eq_two.1 harity
    cases m with
    | map r =>
      have hfind : Mirrors σ (Option.map σ.value)
          (reading fun st => st.heap.find? (st.heap.table r) k)
          (reading fun st => st.heap.find? (st.heap.table (σ.cells + r)) (σ.value k)) := by
        refine mirrors_reading fun st st' hst => ?_
        rw [hst.heap.table, hst.heap.find?]
      refine hfind.bind fun found => ?_
      have hgetD : (found.map σ.value).getD .null = σ.value (found.getD .null) :=
        Option.getD_map σ.value .null found
      rw [hgetD]
      exact mirrors_pure _
    | _ => exact mirrors_invalid _ [_, k]
  | replace =>
    obtain ⟨m, k, v, rfl⟩ := List.length_eq_three.1 harity
    cases m with
    | map r =>
      refine (mirrors_detachKey k).bind fun key => ?_
      exact mirrors_edit_if_present _ .replace r key fun h h' t hh => hh.replace t key v
    | _ => exact mirrors_invalid _ [_, k, v]
  | put =>
    obtain ⟨m, k, v, rfl⟩ := List.length_eq_three.1 harity
    cases m with
    | map r =>
      refine (mirrors_detachKey k).bind fun key => ?_
      refine (mirrors_editTable .put (fun h h' t hh => hh.insert t key v) r).bind fun _ => ?_
      exact mirrors_pure (Value.map r)
    | _ => exact mirrors_invalid _ [_, k, v]
  | keys =>
    obtain ⟨m, rfl⟩ := List.length_eq_one_iff.1 harity
    cases m with
    | map r =>
      refine (mirrors_lendEntries r).bind fun es => ?_
      have hkeys : (es.map σ.entry).map (·.key) = (es.map (·.key)).map σ.value := by
        rw [List.map_map, List.map_map]
        rfl
      rw [hkeys]
      exact mirrors_newList _
    | _ => exact mirrors_invalid _ [_]
  | values =>
    obtain ⟨m, rfl⟩ := List.length_eq_one_iff.1 harity
    cases m with
    | map r => exact (mirrors_sortedValues r).bind fun vs => mirrors_newList vs
    | _ => exact mirrors_invalid _ [_]
  | toList =>
    obtain ⟨m, rfl⟩ := List.length_eq_one_iff.1 harity
    cases m with
    | map r =>
      refine (mirrors_lendEntries r).bind fun es => ?_
      exact (mirrors_newPairs es).bind fun pairs => mirrors_newList pairs
    | _ => exact mirrors_invalid _ [_]

/-! ### Walks -/

/-- Reading a pair, or the error that shows the value in its place. -/
theorem mirrors_asPair (f : Native) (v : Value) :
    Mirrors σ (fun p : Value × Value => (σ.value p.1, σ.value p.2)) (asPair f v)
      (asPair f (σ.value v)) := by
  have hfail : Mirrors σ (fun p : Value × Value => (σ.value p.1, σ.value p.2))
      (do fail (.notPair f (← inspect v))) (do fail (.notPair f (← inspect (σ.value v)))) :=
    (mirrors_inspect v).bind fun text => mirrors_fail _
  cases v with
  | tuple r =>
    refine (mirrors_items r).bind fun xs => ?_
    rw [Array.toList_map]
    -- a tuple of two is a pair; all others are shown in the error
    rcases xs.toList with _ | ⟨a, _ | ⟨b, _ | ⟨c, vs⟩⟩⟩
    · exact hfail
    · exact hfail
    · exact mirrors_pure (a, b)
    · exact hfail
  | _ => exact hfail

/-- Adding an entry to a table that is being built. -/
theorem mirrors_addEntry (t : Table) (key value : Value) :
    Mirrors σ σ.table (addEntry t key value)
      (addEntry (σ.table t) (σ.value key) (σ.value value)) :=
  mirrors_reading fun _ _ hst => hst.heap.insert t key value

/-- Keeping the values that pass a test, if the test mirrors itself. -/
theorem mirrors_filterAll {test test' : Value → Eval Bool}
    (htest : ∀ v, Mirrors σ id (test v) (test' (σ.value v))) (vs : List Value) :
    Mirrors σ (List.map σ.value) (filterAll test vs) (filterAll test' (vs.map σ.value)) := by
  induction vs with
  | nil => exact mirrors_pure []
  | cons v vs ih =>
    rw [List.map_cons, filterAll, filterAll]
    refine (htest v).bind fun keep => ih.bind fun rest => ?_
    cases keep with
    | true => exact mirrors_pure (v :: rest)
    | false => exact mirrors_pure rest

/-- Adding up numbers, or the error that shows the first other value. -/
theorem mirrors_sumNumbers (f : Native) (total : Number) (vs : List Value) :
    Mirrors σ id (sumNumbers f total vs) (sumNumbers f total (vs.map σ.value)) := by
  induction vs generalizing total with
  | nil => exact mirrors_pure total
  | cons v vs ih =>
    -- the text of the culprit is the same: a shift changes no rendering
    have hfail : Mirrors σ id (do fail (.notNumbers f (← inspect v)) : Eval Number)
        (do fail (.notNumbers f (← inspect (σ.value v)))) :=
      (mirrors_inspect v).bind fun text => mirrors_fail _
    cases v with
    | number x => exact ih (total.add x)
    | _ => exact hfail

/-- What is done with a callback, if it is one. -/
theorem mirrors_callable (v : Value) {x y z w : Eval Value} (hxy : Mirrors σ σ.value x y)
    (hzw : Mirrors σ σ.value z w) :
    Mirrors σ σ.value (if v.isCallable then x else z)
      (if (σ.value v).isCallable then y else w) := by
  rw [σ.isCallable_value]
  split
  · exact hxy
  · exact hzw

/-- The operations on collections, if the calls they make mirror themselves. -/
theorem mirrors_runEnum {call call' : Caller}
    (hcall : ∀ f args, Mirrors σ σ.value (call f args) (call' (σ.value f) (args.map σ.value)))
    (op : EnumOp) (args : List Value) :
    Mirrors σ σ.value (runEnum call op args) (runEnum call' op (args.map σ.value)) := by
  refine mirrors_checkArity_bind _ args fun harity => ?_
  cases op with
  | map =>
    obtain ⟨c, k, rfl⟩ := List.length_eq_two.1 harity
    cases c with
    | list r =>
      refine mirrors_callable k ?_ (mirrors_invalid _ [.list r, k])
      refine (mirrors_items r).bind fun xs => ?_
      rw [Array.toList_map]
      refine (mirrors_mapAll (f := σ.value) (q := fun v => call' (σ.value k) [v])
        (fun v => hcall k [v]) xs.toList).bind fun vs => ?_
      exact mirrors_newList vs
    | map r =>
      refine mirrors_callable k ?_ (mirrors_invalid _ [.map r, k])
      refine (mirrors_lendEntries r).bind fun es => ?_
      -- the entries of the new map are added one by one, by keys detached again
      refine (mirrors_foldAll (g := σ.table) (fun t e => ?_) Table.empty es).bind fun t =>
        mirrors_newMap t
      refine (hcall k [e.key, e.value]).bind fun pair => ?_
      refine (mirrors_asPair _ pair).bind fun p => ?_
      refine (mirrors_detachKey p.1).bind fun key => ?_
      exact mirrors_addEntry t key p.2
    | _ => exact mirrors_invalid _ [_, k]
  | filter =>
    obtain ⟨c, k, rfl⟩ := List.length_eq_two.1 harity
    cases c with
    | list r =>
      refine mirrors_callable k ?_ (mirrors_invalid _ [.list r, k])
      refine (mirrors_items r).bind fun xs => ?_
      rw [Array.toList_map]
      refine (mirrors_filterAll (fun v => ?_) xs.toList).bind fun vs => mirrors_newList vs
      refine (hcall k [v]).bind fun kept => ?_
      rw [σ.isTruthy_value]
      exact mirrors_pure kept.isTruthy
    | map r =>
      refine mirrors_callable k ?_ (mirrors_invalid _ [.map r, k])
      refine (mirrors_lendEntries r).bind fun es => ?_
      refine (mirrors_foldAll (g := σ.table) (fun t e => ?_) Table.empty es).bind fun t =>
        mirrors_newMap t
      refine (hcall k [e.key, e.value]).bind fun kept => ?_
      rw [σ.isTruthy_value]
      split
      · exact mirrors_addEntry t e.key e.value
      · exact mirrors_pure t
    | _ => exact mirrors_invalid _ [_, k]
  | reduce =>
    obtain ⟨c, start, k, rfl⟩ := List.length_eq_three.1 harity
    cases c with
    | list r =>
      refine mirrors_callable k ?_ (mirrors_invalid _ [.list r, start, k])
      refine (mirrors_items r).bind fun xs => ?_
      rw [Array.toList_map]
      exact mirrors_foldAll (fun acc v => hcall k [v, acc]) start xs.toList
    | map r =>
      refine mirrors_callable k ?_ (mirrors_invalid _ [.map r, start, k])
      refine (mirrors_lendEntries r).bind fun es => ?_
      refine (mirrors_newPairs es).bind fun pairs => ?_
      exact mirrors_foldAll (fun acc v => hcall k [v, acc]) start pairs
    | _ => exact mirrors_invalid _ [_, start, k]
  | sum =>
    obtain ⟨c, rfl⟩ := List.length_eq_one_iff.1 harity
    cases c with
    | list r =>
      refine (mirrors_items r).bind fun xs => ?_
      rw [Array.toList_map]
      refine (mirrors_sumNumbers _ .zero xs.toList).bind fun total => ?_
      exact mirrors_pure (Value.number total)
    | _ => exact mirrors_invalid _ [_]
  | sort =>
    obtain ⟨c, rfl⟩ := List.length_eq_one_iff.1 harity
    cases c with
    | list r =>
      have hsort : Mirrors σ (List.map σ.value)
          (reading fun st => st.heap.sortValues (st.heap.items r).toList)
          (reading fun st => st.heap.sortValues (st.heap.items (σ.cells + r)).toList) := by
        refine mirrors_reading fun st st' hst => ?_
        rw [hst.heap.items, Array.toList_map, hst.heap.sortValues]
      exact hsort.bind fun vs => mirrors_newList vs
    | _ => exact mirrors_invalid _ [_]

/-! ### Texts, numbers and the global functions -/

/-- The operations on strings. -/
theorem mirrors_runText (op : TextOp) (args : List Value) :
    Mirrors σ σ.value (runText op args) (runText op (args.map σ.value)) := by
  refine mirrors_checkArity_bind _ args fun harity => ?_
  cases op with
  | length | upcase | downcase | reverse | trim =>
    obtain ⟨a, rfl⟩ := List.length_eq_one_iff.1 harity
    cases a with
    | string s => exact mirrors_pure _
    | _ => exact mirrors_invalid _ [_]
  | split =>
    obtain ⟨a, b, rfl⟩ := List.length_eq_two.1 harity
    cases a with
    | string s =>
      cases b with
      | string t =>
        -- strings are not moved by a shift
        have hpieces : (splitText s t).map Value.string =
            ((splitText s t).map Value.string).map σ.value := by
          rw [List.map_map]
          rfl
        change Mirrors σ σ.value _ (newList ((splitText s t).map .string))
        rw [hpieces]
        exact mirrors_newList _
      | _ => exact mirrors_invalid _ [.string s, _]
    | _ => exact mirrors_invalid _ [_, b]
  | contains | concat =>
    obtain ⟨a, b, rfl⟩ := List.length_eq_two.1 harity
    cases a with
    | string s =>
      cases b with
      | string t => exact mirrors_pure _
      | _ => exact mirrors_invalid _ [.string s, _]
    | _ => exact mirrors_invalid _ [_, b]

/-- The operations on numbers. -/
theorem mirrors_runNumber (op : NumberOp) (args : List Value) :
    Mirrors σ σ.value (runNumber op args) (runNumber op (args.map σ.value)) := by
  refine mirrors_checkArity_bind _ args fun harity => ?_
  cases op with
  -- these take one number and answer with a plain value, which the shift leaves as it is
  | floor | ceil | round | abs | toText =>
    obtain ⟨a, rfl⟩ := List.length_eq_one_iff.1 harity
    cases a with
    | number x => exact mirrors_pure _
    | _ => exact mirrors_invalid _ [_]
  | parse =>
    obtain ⟨a, rfl⟩ := List.length_eq_one_iff.1 harity
    cases a with
    | string s =>
      have hargs : [Value.string s].map σ.value = [.string s] := rfl
      rw [hargs]
      dsimp only
      cases Number.read? (Text.trim s) with
      | some x => exact mirrors_pure (Value.number x)
      | none => exact mirrors_pure Value.null
    | _ => exact mirrors_invalid _ [_]

/-- The length of a collection. -/
theorem mirrors_runLen (args : List Value) :
    Mirrors σ σ.value (runLen args) (runLen (args.map σ.value)) := by
  refine mirrors_checkArity_bind _ args fun harity => ?_
  obtain ⟨c, rfl⟩ := List.length_eq_one_iff.1 harity
  cases c with
  | tuple r =>
    refine (mirrors_items r).bind fun xs => ?_
    rw [Array.size_map]
    exact mirrors_pure (Value.number _)
  | list r =>
    refine (mirrors_items r).bind fun xs => ?_
    rw [Array.size_map]
    exact mirrors_pure (Value.number _)
  | map r =>
    refine (mirrors_table r).bind fun t => ?_
    rw [σ.size_table]
    exact mirrors_pure (Value.number _)
  | string s => exact mirrors_pure (Value.number _)
  | _ => exact mirrors_invalid _ [_]

/-- A test of kinds does not look at addresses. -/
theorem holds_value (kind : KindTest) (v : Value) : holds kind (σ.value v) = holds kind v := by
  cases kind <;> cases v <;> rfl

/-- The tests of kinds. -/
theorem mirrors_runTest (kind : KindTest) (args : List Value) :
    Mirrors σ σ.value (runTest kind args) (runTest kind (args.map σ.value)) := by
  refine mirrors_checkArity_bind _ args fun harity => ?_
  obtain ⟨v, rfl⟩ := List.length_eq_one_iff.1 harity
  change Mirrors σ σ.value _ (pure (.boolean (holds kind (σ.value v))))
  rw [holds_value]
  exact mirrors_pure (Value.boolean _)

/-- Printing shows the same texts. -/
theorem mirrors_runPrint (args : List Value) :
    Mirrors σ σ.value (runPrint args) (runPrint (args.map σ.value)) := by
  refine (mirrors_mapAll mirrors_inspect args).bind fun texts => ?_
  rw [List.map_id]
  exact (mirrors_print _).bind fun _ => mirrors_pure Value.null

/-- The date is printed alike. -/
theorem mirrors_runDate : Mirrors σ σ.value runDate runDate :=
  (mirrors_print .now).bind fun _ => mirrors_pure Value.null

/-- **Built-in functions mirror themselves.** -/
theorem mirrors_run {call call' : Caller}
    (hcall : ∀ f args, Mirrors σ σ.value (call f args) (call' (σ.value f) (args.map σ.value)))
    (f : Native) (args : List Value) :
    Mirrors σ σ.value (f.run call args) (f.run call' (args.map σ.value)) := by
  cases f with
  | print => exact mirrors_runPrint args
  | date => exact mirrors_runDate
  | len => exact mirrors_runLen args
  | test kind => exact mirrors_runTest kind args
  | sequence kind op => exact mirrors_runSequence kind op args
  | tupleSize => exact mirrors_runTupleSize args
  | listPop => exact mirrors_runListPop args
  | map op => exact mirrors_runMap op args
  | enum op => exact mirrors_runEnum hcall op args
  | text op => exact mirrors_runText op args
  | number op => exact mirrors_runNumber op args

end AtomScript.Native
