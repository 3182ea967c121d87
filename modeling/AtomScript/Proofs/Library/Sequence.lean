import AtomScript.Library.Dispatch
import AtomScript.Proofs.Eval.Native
import AtomScript.Proofs.Eval.Run
import AtomScript.Proofs.Heap.Cells
import AtomScript.Proofs.Number.Position
import Mathlib.Data.List.InsertIdx

/-!
# The operations of tuples and lists

A cell that holds a sequence is edited in place: the operation puts another list into it, gives the
same cell back, and touches nothing else (`Heap.Rewritten`).  Whatever may fail has been checked
before the edit, so a call that fails leaves the state as it is.

* `Native.Operates` — what each operation does to a sequence, and when it is refused;
* `Native.Atomic` — a call that is refused has changed nothing, and another no cell but that of its
  first argument;
* `Native.perform_sequence` — the former holds of all sequences, the latter of all arguments, and
  the positions are the numbers whose value is a natural number.
-/

namespace AtomScript

namespace Heap

/-- The second heap is the first one with `c` in the cell. -/
structure Rewritten (h g : Heap) (r : Ref) (c : Cell) : Prop where
  cells : ∀ s : Ref, g.cells[s]? = if s = r then some c else h.cells[s]?
  hashing : g.hashing = h.hashing

variable {h g k : Heap} {r : Ref} {c d : Cell} {kind : SequenceKind} {xs ys : List Value}

/-- After a rewriting, the cell is the new one. -/
theorem Rewritten.cell (hg : h.Rewritten g r c) : g.cells[r]? = some c := by
  rw [hg.cells r, if_pos rfl]

/-- Putting back what was there before gives the heap of before. -/
theorem Rewritten.undo (hg : h.Rewritten g r c) (hk : g.Rewritten k r d)
    (hd : h.cells[r]? = some d) : k = h := by
  have hcells : k.cells = h.cells := by
    -- the second change puts back at `r` what the first took away; elsewhere neither did anything
    refine Array.ext_getElem? fun s => ?_
    rw [hk.cells s]
    split
    · next hs => rw [hs, hd]
    · next hs => rw [hg.cells s, if_neg hs]
  exact congrArg₂ Heap.mk hcells (hk.hashing.trans hg.hashing)

/-- The elements of a sequence, read off its cell. -/
theorem items_ofSequence (hc : h.cells[r]? = some (.ofSequence kind xs.toArray)) :
    h.items r = xs.toArray := by
  rw [h.items_of_cell hc]
  cases kind <;> rfl

/-- An edit of the elements of a sequence rewrites its cell and no other. -/
theorem rewritten_editItems (hc : h.cells[r]? = some (.ofSequence kind xs.toArray))
    {f : Array Value → Array Value} (hf : f xs.toArray = ys.toArray) :
    h.Rewritten (h.editItems r f) r (.ofSequence kind ys.toArray) := by
  have hcell : (Cell.ofSequence kind xs.toArray).mapItems f = .ofSequence kind ys.toArray := by
    cases kind
    · exact congrArg Cell.tuple hf
    · exact congrArg Cell.list hf
  refine ⟨fun s => ?_, rfl⟩
  rw [cell_editItems]
  by_cases hs : s = r
  · rw [if_pos hs.symm, if_pos hs, hs, hc, Option.map_some, hcell]
  · rw [if_neg (Ne.symm hs), if_neg hs]

end Heap

/-- An insertion cuts the list where the new element goes. -/
theorem insertIdx_eq_take_append {α : Type} {xs : List α} {p : Nat} (hp : p ≤ xs.length) (v : α) :
    xs.insertIdx p v = xs.take p ++ v :: xs.drop p := by
  induction xs generalizing p with
  | nil =>
    obtain rfl : p = 0 := Nat.le_zero.1 hp
    rfl
  | cons x xs ih =>
    cases p with
    | zero => rfl
    | succ p => rw [List.insertIdx_succ_cons, ih (Nat.le_of_succ_le_succ hp)]; rfl

namespace Native

open Eval

variable {call : Caller} {limit : Nat} {st : State} {kind : SequenceKind} {r : Ref}
  {xs : List Value}

/-! ### Positions -/

section Positions

variable {f : Native} {i : Number} {n p : Nat} {b : Bounds}

/-- An index below the size passes the check. -/
theorem checkIndex_of_lt (hi : i.position? = some p) (hp : p < n) :
    f.checkIndex i n b st = (.value p, st) := by
  unfold checkIndex
  rw [hi]
  dsimp only
  rw [if_pos hp]
  rfl

/-- What is no position below the size is out of range. -/
theorem checkIndex_outside (hi : ∀ p, i.position? = some p → n ≤ p) :
    f.checkIndex i n b st = (.error (.outOfRange f i n), st) := by
  unfold checkIndex
  cases hp : i.position? with
  | none => rfl
  | some p =>
    dsimp only
    rw [if_neg (Nat.not_lt.2 (hi p hp))]
    rfl

/-- A place up to the size passes the check. -/
theorem checkGap_of_le (hi : i.position? = some p) (hp : p ≤ n) :
    f.checkGap i n b st = (.value p, st) := by
  unfold checkGap
  rw [hi]
  dsimp only
  rw [if_pos hp]
  rfl

/-- What is no position up to the size is out of range. -/
theorem checkGap_outside (hi : ∀ p, i.position? = some p → n < p) :
    f.checkGap i n b st = (.error (.outOfRange f i n), st) := by
  unfold checkGap
  cases hp : i.position? with
  | none => rfl
  | some p =>
    dsimp only
    rw [if_neg (Nat.not_le.2 (hi p hp))]
    rfl

end Positions

/-! ### What the operations do to a sequence -/

/-- A run that nothing watches. -/
def perform (call : Caller) (limit : Nat) (f : Native) (args : List Value) (st : State) :
    Ending Value × State :=
  run call f args ⟨limit, none⟩ st

/-- The run gives the sequence back, which holds `ys` now.  Nothing else has changed. -/
def Edits (st : State) (kind : SequenceKind) (r : Ref) (ys : List Value)
    (ran : Ending Value × State) : Prop :=
  ∃ g, ran = (.value (.ofSequence kind r), { st with heap := g }) ∧
    st.heap.Rewritten g r (.ofSequence kind ys.toArray)

/-- What the operations do to the sequence in the cell `r` that holds `xs`. -/
structure Operates (call : Caller) (limit : Nat) (st : State) (kind : SequenceKind) (r : Ref)
    (xs : List Value) : Prop where
  get : ∀ (i : Number) (p : Nat) (hp : p < xs.length), i.position? = some p →
    perform call limit (.sequence kind .get) [.ofSequence kind r, .number i] st =
      (.value xs[p], st)
  get_outside : ∀ i : Number, (∀ p, i.position? = some p → xs.length ≤ p) →
    perform call limit (.sequence kind .get) [.ofSequence kind r, .number i] st =
      (.error (.outOfRange (.sequence kind .get) i xs.length), st)
  append : ∀ v, Edits st kind r (xs ++ [v])
    (perform call limit (.sequence kind .append) [.ofSequence kind r, v] st)
  deleteAt : ∀ (i : Number) (p : Nat), i.position? = some p → p < xs.length →
    Edits st kind r (xs.take p ++ xs.drop (p + 1))
      (perform call limit (.sequence kind .deleteAt) [.ofSequence kind r, .number i] st)
  deleteAt_outside : ∀ i : Number, (∀ p, i.position? = some p → xs.length ≤ p) →
    perform call limit (.sequence kind .deleteAt) [.ofSequence kind r, .number i] st =
      (.error (.outOfRange (.sequence kind .deleteAt) i xs.length), st)
  insertAt : ∀ (i : Number) (p : Nat) (v : Value), i.position? = some p → p ≤ xs.length →
    Edits st kind r (xs.take p ++ v :: xs.drop p)
      (perform call limit (.sequence kind .insertAt) [.ofSequence kind r, .number i, v] st)
  insertAt_outside : ∀ (i : Number) (v : Value), (∀ p, i.position? = some p → xs.length < p) →
    perform call limit (.sequence kind .insertAt) [.ofSequence kind r, .number i, v] st =
      (.error (.outOfRange (.sequence kind .insertAt) i xs.length), st)
  /-- Deleting the inserted element leads back to the state of before. -/
  insertAt_deleteAt : ∀ (i : Number) (p : Nat) (v : Value), i.position? = some p →
    p ≤ xs.length → ∃ mid,
      perform call limit (.sequence kind .insertAt) [.ofSequence kind r, .number i, v] st =
        (.value (.ofSequence kind r), mid) ∧
      perform call limit (.sequence kind .deleteAt) [.ofSequence kind r, .number i] mid =
        (.value (.ofSequence kind r), st)
  convert : perform call limit (.sequence kind .convert) [.ofSequence kind r] st =
    (.value (.ofSequence kind.other st.heap.size),
      { st with heap := st.heap.push (.ofSequence kind.other xs.toArray) })
  size : kind = .tuple →
    perform call limit .tupleSize [.tuple r] st = (.value (.number (.ofNat xs.length)), st)
  pop : kind = .list → ∀ (init : List Value) (last : Value), xs = init ++ [last] → ∃ g,
    perform call limit .listPop [.list r] st =
      (.value (.tuple g.size), { st with heap := g.push (.tuple #[last, .list r]) }) ∧
    st.heap.Rewritten g r (.list init.toArray)
  pop_empty : kind = .list → xs = [] →
    perform call limit .listPop [.list r] st = (.error .emptyPop, st)

section Operations

variable (hc : st.heap.cells[r]? = some (.ofSequence kind xs.toArray)) {i : Number} {p : Nat}

/-- Reading an element: the check, then the element. -/
theorem perform_get : perform call limit (.sequence kind .get) [.ofSequence kind r, .number i] st =
    ((Native.sequence kind .get).checkIndex i (st.heap.items r).size >>= fun p =>
      pure ((st.heap.items r).getD p .null)) ⟨limit, none⟩ st := by
  cases kind <;> rfl

/-- Appending: an edit of the cell, with no check. -/
theorem perform_append (v : Value) :
    perform call limit (.sequence kind .append) [.ofSequence kind r, v] st =
      (.value (.ofSequence kind r), { st with heap := st.heap.editItems r (·.push v) }) := by
  cases kind <;> rfl

/-- Removing at an index: the check, then the edit. -/
theorem perform_deleteAt :
    perform call limit (.sequence kind .deleteAt) [.ofSequence kind r, .number i] st =
      ((Native.sequence kind .deleteAt).checkIndex i (st.heap.items r).size >>= fun p => do
        editItems r (·.eraseIdxIfInBounds p)
        return .ofSequence kind r) ⟨limit, none⟩ st := by
  cases kind <;> rfl

/-- Inserting at a place: the check, then the edit. -/
theorem perform_insertAt (v : Value) :
    perform call limit (.sequence kind .insertAt) [.ofSequence kind r, .number i, v] st =
      ((Native.sequence kind .insertAt).checkGap i (st.heap.items r).size >>= fun p => do
        editItems r (·.insertIdxIfInBounds p v)
        return .ofSequence kind r) ⟨limit, none⟩ st := by
  cases kind <;> rfl

/-- Taking the last element: the edit, then the pair of the element and the list. -/
theorem perform_pop : perform call limit .listPop [.list r] st =
    (match (st.heap.items r).back? with
      | some last => do
        editItems r (·.pop)
        newTuple [last, .list r]
      | none => fail .emptyPop) ⟨limit, none⟩ st := rfl

include hc

/-- Removing at a position below the size. -/
theorem edits_deleteAt (hi : i.position? = some p) (hp : p < xs.length) :
    Edits st kind r (xs.take p ++ xs.drop (p + 1))
      (perform call limit (.sequence kind .deleteAt) [.ofSequence kind r, .number i] st) := by
  rw [perform_deleteAt, Heap.items_ofSequence hc, List.size_toArray,
    bind_of_value (checkIndex_of_lt hi hp)]
  refine ⟨_, rfl, Heap.rewritten_editItems hc ?_⟩
  rw [List.eraseIdxIfInBounds_toArray, List.eraseIdx_eq_take_drop_succ]

/-- Inserting at a position up to the size. -/
theorem edits_insertAt (hi : i.position? = some p) (hp : p ≤ xs.length) (v : Value) :
    Edits st kind r (xs.take p ++ v :: xs.drop p)
      (perform call limit (.sequence kind .insertAt) [.ofSequence kind r, .number i, v] st) := by
  rw [perform_insertAt, Heap.items_ofSequence hc, List.size_toArray,
    bind_of_value (checkGap_of_le hi hp)]
  refine ⟨_, rfl, Heap.rewritten_editItems hc ?_⟩
  rw [List.insertIdxIfInBounds_toArray, insertIdx_eq_take_append hp]

/-- The inserted element is found again where it was put. -/
theorem deleteAt_of_insertAt (hi : i.position? = some p) (hp : p ≤ xs.length) (v : Value) :
    ∃ mid,
      perform call limit (.sequence kind .insertAt) [.ofSequence kind r, .number i, v] st =
        (.value (.ofSequence kind r), mid) ∧
      perform call limit (.sequence kind .deleteAt) [.ofSequence kind r, .number i] mid =
        (.value (.ofSequence kind r), st) := by
  have hinserted : Edits st kind r (xs.take p ++ v :: xs.drop p)
      (perform call limit (.sequence kind .insertAt) [.ofSequence kind r, .number i, v] st) :=
    edits_insertAt hc hi hp v
  obtain ⟨g, hinsert, hg⟩ := hinserted
  -- the element that was put in stands at `p`, below the new length
  have hlength : (xs.take p).length = p := List.length_take_of_le hp
  have hlt : p < (xs.take p ++ v :: xs.drop p).length := by
    rw [List.length_append, hlength, List.length_cons]
    omega
  have hmid : ({ st with heap := g } : State).heap.cells[r]? =
      some (.ofSequence kind (xs.take p ++ v :: xs.drop p).toArray) := hg.cell
  have hdeleted : Edits { st with heap := g } kind r _
      (perform call limit (.sequence kind .deleteAt) [.ofSequence kind r, .number i]
        { st with heap := g }) := edits_deleteAt hmid hi hlt
  obtain ⟨k, hdelete, hk⟩ := hdeleted
  -- what stands before and behind position `p` is the old list
  have hback : (xs.take p ++ v :: xs.drop p).take p ++
      (xs.take p ++ v :: xs.drop p).drop (p + 1) = xs := by
    rw [List.take_left' hlength, List.drop_append, hlength, List.drop_eq_nil_of_le (by omega),
      Nat.add_sub_cancel_left, List.drop_succ_cons, List.drop_zero, List.nil_append,
      List.take_append_drop]
  rw [hback] at hk
  rw [hg.undo hk hc] at hdelete
  exact ⟨_, hinsert, hdelete⟩

end Operations

/-- **What the operations do to a sequence.** -/
theorem operates (call : Caller) (limit : Nat)
    (hc : st.heap.cells[r]? = some (.ofSequence kind xs.toArray)) :
    Operates call limit st kind r xs where
  -- each operation is its check, settled by the hypothesis, and then its edit
  get i p hp hi := by
    rw [perform_get, Heap.items_ofSequence hc, List.size_toArray,
      bind_of_value (checkIndex_of_lt hi hp), Array.getD_eq_getD_getElem?, List.getElem?_toArray,
      List.getElem?_eq_getElem hp]
    rfl
  get_outside i hi := by
    rw [perform_get, Heap.items_ofSequence hc, List.size_toArray,
      bind_of_error (checkIndex_outside hi)]
  append v := by
    rw [perform_append]
    exact ⟨_, rfl, Heap.rewritten_editItems hc (List.push_toArray xs v)⟩
  deleteAt i p hi hp := edits_deleteAt hc hi hp
  deleteAt_outside i hi := by
    rw [perform_deleteAt, Heap.items_ofSequence hc, List.size_toArray,
      bind_of_error (checkIndex_outside hi)]
  insertAt i p v hi hp := edits_insertAt hc hi hp v
  insertAt_outside i v hi := by
    rw [perform_insertAt, Heap.items_ofSequence hc, List.size_toArray,
      bind_of_error (checkGap_outside hi)]
  insertAt_deleteAt i p v hi hp := deleteAt_of_insertAt hc hi hp v
  convert := by
    have hitems := Heap.items_ofSequence hc
    cases kind with
    | tuple => rw [← hitems]; rfl
    | list => rw [← hitems]; rfl
  size hkind := by
    change (Ending.value (Value.number (.ofNat (st.heap.items r).size)), st) = _
    rw [Heap.items_ofSequence hc, List.size_toArray]
  pop hkind init last hxs := by
    subst hkind hxs
    refine ⟨st.heap.editItems r (·.pop), ?_, Heap.rewritten_editItems hc ?_⟩
    · rw [perform_pop, Heap.items_ofSequence hc, List.back?_toArray, List.getLast?_append]
      rfl
    · rw [List.pop_toArray, List.dropLast_concat]
  pop_empty hkind hxs := by
    rw [perform_pop, Heap.items_ofSequence hc, hxs]
    rfl

/-! ### Calls with any arguments -/

/-- The built-in functions on tuples and lists. -/
def OnSequences : Native → Prop
  | sequence .. | tupleSize | listPop => True
  | _ => False

/-- Why a call is refused. -/
inductive Refusal (f : Native) (args : List Value) : Error → Prop where
  | arity : args.length ≠ f.arity → Refusal f args (.arity f.name f.arity args.length)
  | kinds : args.length = f.arity → Refusal f args (.argumentFormat f (args.map Value.kind))
  | index (i : Number) (n : Nat) : Refusal f args (.outOfRange f i n)
  | empty : f = .listPop → Refusal f args .emptyPop

/-- The run is refused and has changed nothing, or it gives a value and has changed no cell of
before, other than that of the first argument. -/
inductive Atomic (f : Native) (args : List Value) (st : State) : Ending Value × State → Prop where
  | refused {e : Error} : Refusal f args e → Atomic f args st (.error e, st)
  | done {g : Heap} (v : Value) :
    (∀ s < st.heap.size, args.head?.bind Value.ref? ≠ some s →
      g.cells[s]? = st.heap.cells[s]?) →
    Atomic f args st (.value v, { st with heap := g })

section AnyArguments

variable {f : Native} {args : List Value} {α : Type} {x : Eval α} {k : α → Eval Value} {b : Bounds}

/-- The computation looks at the state only, and may refuse the call. -/
def Checks (f : Native) (args : List Value) (b : Bounds) (st : State) (x : Eval α) : Prop :=
  (∃ a, x b st = (.value a, st)) ∨ ∃ e, Refusal f args e ∧ x b st = (.error e, st)

/-- The check of an index passes or reports, and changes nothing. -/
theorem checks_checkIndex (i : Number) (n : Nat) : Checks f args b st (f.checkIndex i n) := by
  by_cases h : ∃ p, i.position? = some p ∧ p < n
  · obtain ⟨p, hi, hp⟩ := h
    exact .inl ⟨p, checkIndex_of_lt hi hp⟩
  · exact .inr ⟨_, .index i n, checkIndex_outside fun p hi => Nat.not_lt.1 fun hp => h ⟨p, hi, hp⟩⟩

/-- The check of a place passes or reports, and changes nothing. -/
theorem checks_checkGap (i : Number) (n : Nat) : Checks f args b st (f.checkGap i n) := by
  by_cases h : ∃ p, i.position? = some p ∧ p ≤ n
  · obtain ⟨p, hi, hp⟩ := h
    exact .inl ⟨p, checkGap_of_le hi hp⟩
  · exact .inr ⟨_, .index i n, checkGap_outside fun p hi => Nat.not_le.1 fun hp => h ⟨p, hi, hp⟩⟩

/-- What comes after checks is all that counts. -/
theorem Atomic.bind (hx : Checks f args b st x) (hk : ∀ a, Atomic f args st (k a b st)) :
    Atomic f args st ((x >>= k) b st) := by
  rcases hx with ⟨a, hx⟩ | ⟨e, he, hx⟩
  · rw [bind_of_value hx]
    exact hk a
  · rw [bind_of_error hx]
    exact .refused he

/-- Looking at the state changes nothing. -/
theorem Atomic.look (v : Value) : Atomic f args st (.value v, st) :=
  .done v fun _ _ _ => rfl

/-- An edit of the first argument. -/
theorem Atomic.edit {s : Value} {rest : List Value} (hr : s.ref? = some r)
    (edit : Array Value → Array Value) (v : Value) :
    Atomic f (s :: rest) st (.value v, { st with heap := st.heap.editItems r edit }) := by
  refine .done v fun s _ hs => ?_
  rw [Heap.cell_editItems, if_neg]
  rintro rfl
  exact hs hr

/-- New cells are no cells of before. -/
theorem Atomic.push {g : Heap} (hsize : st.heap.size = g.size) (c : Cell) (v : Value)
    (h : Atomic f args st (.value v, { st with heap := g })) (w : Value) :
    Atomic f args st (.value w, { st with heap := g.push c }) := by
  cases h with
  | done _ h =>
    refine .done w fun s hs hne => ?_
    rw [Heap.cell_push, if_neg (Nat.ne_of_lt (hsize ▸ hs))]
    exact h s hs hne

/-- The number of the arguments is checked first. -/
theorem Atomic.of_arity {y : Eval Value} (hy : args.length = f.arity → Atomic f args st (y b st)) :
    Atomic f args st ((f.checkArity args >>= fun _ => y) b st) := by
  unfold checkArity
  split
  · next h => exact hy h
  · next h => exact .refused (.arity h)

/-- Unsuitable arguments leave the state. -/
theorem Atomic.invalid (harity : args.length = f.arity) :
    Atomic f args st (f.invalid args b st) :=
  .refused (.kinds harity)

/-- The first argument must be a sequence of the kind. -/
theorem Atomic.of_ref {kind : SequenceKind} {s : Value} {rest : List Value} {y : Ref → Eval Value}
    (harity : (s :: rest).length = f.arity)
    (hy : ∀ r, s.ref? = some r → Atomic f (s :: rest) st (y r b st)) :
    Atomic f (s :: rest) st ((match sequenceRef? kind s with
      | some r => y r
      | none => f.invalid (s :: rest)) b st) := by
  cases hr : sequenceRef? kind s with
  | some r => exact hy r (ref?_of_sequenceRef? hr)
  | none => exact Atomic.invalid harity

/-- An operation on a sequence fails with no effect or succeeds. -/
theorem atomic_runSequence (kind : SequenceKind) (op : SequenceOp) (args : List Value) :
    Atomic (.sequence kind op) args st (runSequence kind op args ⟨limit, none⟩ st) := by
  unfold runSequence
  refine Atomic.of_arity fun harity => ?_
  -- all but `append` and the conversion look for a position before they touch the cell
  split
  · exact Atomic.of_ref harity fun r hr => Atomic.bind (.inl ⟨_, rfl⟩) fun xs =>
      Atomic.bind (checks_checkIndex _ _) fun p => Atomic.look _
  · exact Atomic.of_ref harity fun r hr => Atomic.edit hr _ _
  · exact Atomic.of_ref harity fun r hr => Atomic.bind (.inl ⟨_, rfl⟩) fun xs =>
      Atomic.bind (checks_checkIndex _ _) fun p => Atomic.edit hr _ _
  · exact Atomic.of_ref harity fun r hr => Atomic.bind (.inl ⟨_, rfl⟩) fun xs =>
      Atomic.bind (checks_checkGap _ _) fun p => Atomic.edit hr _ _
  · refine Atomic.of_ref harity fun r hr => Atomic.bind (.inl ⟨_, rfl⟩) fun xs => ?_
    cases kind with
    | tuple => exact Atomic.push rfl _ _ (Atomic.look .null) _
    | list => exact Atomic.push rfl _ _ (Atomic.look .null) _
  · exact Atomic.invalid harity

/-- The size of a tuple is taken or refused, with no effect. -/
theorem atomic_runTupleSize (args : List Value) :
    Atomic .tupleSize args st (runTupleSize args ⟨limit, none⟩ st) := by
  unfold runTupleSize
  refine Atomic.of_arity fun harity => ?_
  split
  · exact Atomic.look _
  · exact Atomic.invalid harity

/-- Taking the last element fails with no effect or succeeds. -/
theorem atomic_runListPop (args : List Value) :
    Atomic .listPop args st (runListPop args ⟨limit, none⟩ st) := by
  unfold runListPop
  refine Atomic.of_arity fun harity => ?_
  split
  · next r =>
    -- nothing is edited before the list is known to have a last element
    refine Atomic.bind (.inl ⟨_, rfl⟩) fun xs => ?_
    cases xs.back? with
    | none => exact .refused (.empty rfl)
    | some last =>
      have hedit : Atomic .listPop [.list r] st
          (.value .null, { st with heap := st.heap.editItems r (·.pop) }) := Atomic.edit rfl _ _
      exact Atomic.push (st.heap.size_editItems r _).symm _ _ hedit _
  · exact Atomic.invalid harity

end AnyArguments

/-- **Tuples and lists are edited in place, and at once.**  Whatever the arguments, a call is
refused and changes nothing, or it gives a value and changes no cell but that of its first argument.
On a sequence each operation does to the list of its elements what its name says, and is refused
exactly if there is no such position or, for `pop`, no element.  The argument that is put in may be
anything, the sequence itself included.  A number is a position if it is finite and its value is a
natural number. -/
theorem perform_sequence (call : Caller) (limit : Nat) (st : State) :
    (∀ f args, OnSequences f → Atomic f args st (perform call limit f args st)) ∧
    (∀ kind r xs, st.heap.cells[r]? = some (.ofSequence kind xs.toArray) →
      Operates call limit st kind r xs) ∧
    ∀ (i : Number) (p : Nat), i.position? = some p ↔ i.value? = some (p : ℚ) := by
  refine ⟨fun f args hf => ?_, fun kind r xs hc => operates call limit hc,
    fun i p => Number.position?_eq_some⟩
  -- the other natives are excluded by `OnSequences`
  cases f with
  | sequence kind op => exact atomic_runSequence kind op args
  | tupleSize => exact atomic_runTupleSize args
  | listPop => exact atomic_runListPop args
  | _ => exact hf.elim

/-- A list that is inserted into itself in front of its element, and taken out again. -/
theorem perform_sequence_itself :
    let st : State := ⟨{ cells := #[.list #[.atom "a"]] }, default, 0, 0, #[]⟩
    (∃ g, perform (fun _ _ => Eval.exhausted) 0 (.sequence .list .insertAt)
        [.list 0, .number .zero, .list 0] st = (.value (.list 0), { st with heap := g }) ∧
      g.cells[0]? = some (.list #[.list 0, .atom "a"])) ∧
    Atomic .listPop [] st (perform (fun _ _ => Eval.exhausted) 0 .listPop [] st) := by
  intro st
  obtain ⟨hatomic, hoperates, -⟩ := perform_sequence (fun _ _ => Eval.exhausted) 0 st
  have hlist := hoperates .list 0 [.atom "a"] rfl
  obtain ⟨g, hrun, hg⟩ := hlist.insertAt .zero 0 (.list 0) (by decide +kernel) (Nat.zero_le _)
  exact ⟨⟨g, hrun, hg.cell⟩, hatomic .listPop [] trivial⟩

end Native

end AtomScript
