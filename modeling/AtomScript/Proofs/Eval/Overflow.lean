import AtomScript.Proofs.Eval.Native

/-!
# Overflows come from calls

An overflow is raised where a call is refused, and nowhere else.  So a computation in which no calls
are made is *shallow*: it does not end with an overflow, whatever it is run on.  The judgements of
`Logic` and `Family` cannot say this, because they admit every failure that is not about signals.

* `Native.shallow_run` — a built-in function overflows only if its callback does;
* `frame_ne_overflow` — a call that is not refused overflows only if its body does.
-/

namespace AtomScript

/-- The computation never ends with an overflow. -/
def Eval.Shallow {α : Type} (x : Eval α) : Prop :=
  ∀ b st l, (x b st).1 ≠ .error (.stackOverflow l)

namespace Eval

variable {α β : Type} {x : Eval α} {f : α → Eval β}

/-- A result is no overflow. -/
theorem shallow_pure {a : α} : (pure a : Eval α).Shallow := by
  intro b st l h
  cases h

/-- Nor is the end of the fuel. -/
theorem shallow_exhausted : (exhausted : Eval α).Shallow := by
  intro b st l h
  cases h

/-- Nor is what is read off the state. -/
theorem shallow_reading {g : State → α} : (reading g).Shallow := by
  intro b st l h
  cases h

/-- An error of another kind is none. -/
theorem shallow_fail {e : Error} (he : ∀ l, e ≠ .stackOverflow l) :
    (fail e : Eval α).Shallow := by
  intro b st l h
  exact he l (Ending.error.inj h)

/-- **One computation after the other**: whichever fails, it is not with an overflow. -/
theorem Shallow.bind (hx : x.Shallow) (hf : ∀ a, (f a).Shallow) : (x >>= f).Shallow := by
  intro b st l
  -- what the second computation is depends on the result of the first
  rcases h : x b st with ⟨a | e | _, mid⟩
  · rw [bind_of_value h]
    exact hf a b mid l
  · have he := hx b st l
    rw [h] at he
    rw [bind_of_error h]
    exact fun heq => he (congrArg Ending.error (Ending.error.inj heq))
  · rw [bind_of_exhausted h]
    exact nofun

/-- A failure whose message is read off the state first. -/
theorem shallow_fail_after {γ : Type} {g : State → γ} {e : γ → Error}
    (he : ∀ c l, e c ≠ .stackOverflow l) :
    (reading g >>= fun c => fail (e c) : Eval α).Shallow :=
  shallow_reading.bind fun c => shallow_fail (he c)

/-- An act overflows if what it does to the state does; the watch raises nothing. -/
theorem shallow_act {event : Event} {g : State → Ending α × State}
    (hg : ∀ st l, (g st).1 ≠ .error (.stackOverflow l)) : (act event g).Shallow := by
  intro b st l
  have hst := hg st l
  -- the act takes effect only if the watch does not stop it
  rcases h : g st with ⟨a | e | _, after⟩ <;> rw [h] at hst
  · rw [act_of_value h]
    split
    · exact nofun
    · exact nofun
  · rw [act_of_error h]
    exact hst
  · rw [act_of_exhausted h]
    exact hst

/-- A new cell can always be made. -/
theorem shallow_alloc (c : Cell) : (alloc c).Shallow := shallow_act fun _ _ => nofun

/-- Making a tuple makes a cell. -/
theorem shallow_newTuple (vs : List Value) : (newTuple vs).Shallow :=
  (shallow_alloc _).bind fun _ => shallow_pure

/-- And so does making a list. -/
theorem shallow_newList (vs : List Value) : (newList vs).Shallow :=
  (shallow_alloc _).bind fun _ => shallow_pure

/-- And making a map. -/
theorem shallow_newMap (t : Table) : (newMap t).Shallow :=
  (shallow_alloc _).bind fun _ => shallow_pure

/-- An edit cannot fail. -/
theorem shallow_editItems (r : Ref) (g : Array Value → Array Value) : (editItems r g).Shallow :=
  shallow_act fun _ _ => nofun

/-- Nor can the edit of a table. -/
theorem shallow_editTable (event : Ref → Event) (r : Ref) (g : Heap → Table → Table) :
    (editTable event r g).Shallow :=
  shallow_act fun _ _ => nofun

/-- A key that contains itself is an error of another kind. -/
theorem shallow_detachKey (v : Value) : (detachKey v).Shallow := by
  refine shallow_act fun st l => ?_
  split
  · exact nofun
  · exact nofun

/-- A constant is an error of another kind. -/
theorem shallow_declare (s : ScopeId) (name : String) (v : Value) :
    (declare s name v).Shallow := by
  refine shallow_act fun st l => ?_
  split
  · exact nofun
  · next e he =>
    rw [ScopeTree.error_of_declareIn he]
    exact nofun

/-- A computation for each member of a list. -/
theorem shallow_mapAll {g : α → Eval β} (hg : ∀ a, (g a).Shallow) (as : List α) :
    (mapAll g as).Shallow := by
  induction as with
  | nil =>
    unfold mapAll
    exact shallow_pure
  | cons a as ih =>
    unfold mapAll
    exact (hg a).bind fun _ => ih.bind fun _ => shallow_pure

/-- A computation that hands a result on from member to member. -/
theorem shallow_foldAll {g : β → α → Eval β} (hg : ∀ c a, (g c a).Shallow) (c : β)
    (as : List α) : (foldAll g c as).Shallow := by
  induction as generalizing c with
  | nil =>
    unfold foldAll
    exact shallow_pure
  | cons a as ih =>
    unfold foldAll
    exact (hg c a).bind ih

end Eval

namespace Native

open Eval

variable {α : Type} {f : Native} {args : List Value}

/-- A wrong number of arguments is an error of its own. -/
theorem shallow_checkArity : (f.checkArity args).Shallow := by
  unfold checkArity
  split
  · exact shallow_pure
  · exact shallow_fail fun _ => nofun

/-- And so are arguments of the wrong kinds. -/
theorem shallow_invalid : (f.invalid args : Eval α).Shallow := shallow_fail fun _ => nofun

/-- A position that is not there is an error of its own. -/
theorem shallow_checkIndex (index : Number) (size : Nat) : (f.checkIndex index size).Shallow := by
  unfold checkIndex
  split
  · split
    · exact shallow_pure
    · exact shallow_fail fun _ => nofun
  · exact shallow_fail fun _ => nofun

/-- Also where the place behind the last element counts. -/
theorem shallow_checkGap (index : Number) (size : Nat) : (f.checkGap index size).Shallow := by
  unfold checkGap
  split
  · split
    · exact shallow_pure
    · exact shallow_fail fun _ => nofun
  · exact shallow_fail fun _ => nofun

/-- A new sequence of either kind. -/
theorem shallow_newSequence (kind : SequenceKind) (vs : List Value) :
    (newSequence kind vs).Shallow := by
  cases kind with
  | tuple => exact shallow_newTuple vs
  | list => exact shallow_newList vs

/-- The entries of a map are lent without a check. -/
theorem shallow_lendEntries (r : Ref) : (lendEntries r).Shallow := shallow_act fun _ _ => nofun

/-- The operations that tuples and lists share. -/
theorem shallow_runSequence (kind : SequenceKind) (op : SequenceOp) :
    (runSequence kind op args).Shallow := by
  unfold runSequence
  refine shallow_checkArity.bind fun _ => ?_
  -- in each form the sequence is looked at first, and its position checked before it is edited
  split
  · split
    · exact shallow_reading.bind fun _ => (shallow_checkIndex _ _).bind fun _ => shallow_pure
    · exact shallow_invalid
  · split
    · exact (shallow_editItems _ _).bind fun _ => shallow_pure
    · exact shallow_invalid
  · split
    · exact shallow_reading.bind fun _ => (shallow_checkIndex _ _).bind fun _ =>
        (shallow_editItems _ _).bind fun _ => shallow_pure
    · exact shallow_invalid
  · split
    · exact shallow_reading.bind fun _ => (shallow_checkGap _ _).bind fun _ =>
        (shallow_editItems _ _).bind fun _ => shallow_pure
    · exact shallow_invalid
  · split
    · exact shallow_reading.bind fun _ => shallow_newSequence _ _
    · exact shallow_invalid
  · exact shallow_invalid

/-- The size of a tuple. -/
theorem shallow_runTupleSize : (runTupleSize args).Shallow := by
  unfold runTupleSize
  refine shallow_checkArity.bind fun _ => ?_
  split
  · exact shallow_reading.bind fun _ => shallow_pure
  · exact shallow_invalid

/-- An empty list is an error of its own. -/
theorem shallow_runListPop : (runListPop args).Shallow := by
  unfold runListPop
  refine shallow_checkArity.bind fun _ => ?_
  split
  · refine shallow_reading.bind fun xs => ?_
    split
    · exact (shallow_editItems _ _).bind fun _ => shallow_newTuple _
    · exact shallow_fail fun _ => nofun
  · exact shallow_invalid

/-- An edit that is made only if the key is there; that it is not is an error of its own. -/
theorem shallow_edit_if_present {r : Ref} {k : Value} {edit : Eval Unit} (hedit : edit.Shallow) :
    (do
      if ← reading fun st => st.heap.contains (st.heap.table r) k then
        edit
        return Value.map r
      else fail (.missingKey f (← inspect k))).Shallow := by
  refine shallow_reading.bind fun present => ?_
  split
  · exact hedit.bind fun _ => shallow_pure
  · exact shallow_fail_after fun _ _ => nofun

/-- The operations of maps call nothing back. -/
theorem shallow_runMap (op : MapOp) : (runMap op args).Shallow := by
  unfold runMap
  refine shallow_checkArity.bind fun _ => ?_
  -- a lookup in the map is an act of reading; keys to be written are detached before
  split
  · exact (shallow_detachKey _).bind fun _ => shallow_edit_if_present (shallow_editTable _ _ _)
  · exact shallow_reading.bind fun _ => shallow_pure
  · exact (shallow_detachKey _).bind fun _ => shallow_edit_if_present (shallow_editTable _ _ _)
  · exact (shallow_detachKey _).bind fun _ => (shallow_editTable _ _ _).bind fun _ => shallow_pure
  · exact (shallow_lendEntries _).bind fun _ => shallow_newList _
  · exact shallow_reading.bind fun _ => shallow_newList _
  · exact (shallow_lendEntries _).bind fun es =>
      (shallow_mapAll (fun _ => shallow_newTuple _) es).bind fun _ => shallow_newList _
  · exact shallow_invalid

/-- A result that is no pair is an error of its own. -/
theorem shallow_asPair (v : Value) : (asPair f v).Shallow := by
  unfold asPair
  split
  · refine shallow_reading.bind fun xs => ?_
    split
    · exact shallow_pure
    · exact shallow_fail_after fun _ _ => nofun
  · exact shallow_fail_after fun _ _ => nofun

/-- A test for each member of a list. -/
theorem shallow_filterAll {test : α → Eval Bool} (htest : ∀ a, (test a).Shallow) (as : List α) :
    (filterAll test as).Shallow := by
  induction as with
  | nil =>
    unfold filterAll
    exact shallow_pure
  | cons a as ih =>
    unfold filterAll
    exact (htest a).bind fun _ => ih.bind fun _ => shallow_pure

/-- Adding numbers up; a value that is no number is an error of its own. -/
theorem shallow_sumNumbers (total : Number) (vs : List Value) :
    (sumNumbers f total vs).Shallow := by
  fun_induction sumNumbers f total vs with
  | case1 => exact shallow_pure
  | case2 total x vs ih => exact ih
  | case3 => exact shallow_fail_after fun _ _ h => by cases h

section Walk

variable {call : Caller} (hcall : ∀ v vs, (call v vs).Shallow)

include hcall

/-- What a walk raises beside errors of its own, its callback has raised. -/
theorem shallow_runEnum (op : EnumOp) : (runEnum call op args).Shallow := by
  unfold runEnum
  refine shallow_checkArity.bind fun _ => ?_
  -- lists and maps apart; in each walk the only calls are those of the callback
  split
  · split
    · exact shallow_reading.bind fun xs =>
        (shallow_mapAll (fun v => hcall _ [v]) xs.toList).bind fun _ => shallow_newList _
    · exact shallow_invalid
  · split
    · refine (shallow_lendEntries _).bind fun es => ?_
      refine (shallow_foldAll (fun t e => ?_) _ es).bind fun _ => shallow_newMap _
      exact (hcall _ _).bind fun u => (shallow_asPair u).bind fun p =>
        (shallow_detachKey p.1).bind fun _ => shallow_reading
    · exact shallow_invalid
  · split
    · refine shallow_reading.bind fun xs => ?_
      refine (shallow_filterAll (fun v => ?_) xs.toList).bind fun _ => shallow_newList _
      exact (hcall _ [v]).bind fun _ => shallow_pure
    · exact shallow_invalid
  · split
    · refine (shallow_lendEntries _).bind fun es => ?_
      refine (shallow_foldAll (fun t e => ?_) _ es).bind fun _ => shallow_newMap _
      refine (hcall _ _).bind fun u => ?_
      split
      · exact shallow_reading
      · exact shallow_pure
    · exact shallow_invalid
  · split
    · exact shallow_reading.bind fun xs => shallow_foldAll (fun acc v => hcall _ [v, acc]) _ _
    · exact shallow_invalid
  · split
    · exact (shallow_lendEntries _).bind fun es =>
        (shallow_mapAll (fun _ => shallow_newTuple _) es).bind fun pairs =>
          shallow_foldAll (fun acc v => hcall _ [v, acc]) _ pairs
    · exact shallow_invalid
  · exact shallow_reading.bind fun _ => (shallow_sumNumbers _ _).bind fun _ => shallow_pure
  · exact shallow_reading.bind fun _ => shallow_newList _
  · exact shallow_invalid

end Walk

/-- The operations of texts. -/
theorem shallow_runText (op : TextOp) : (runText op args).Shallow := by
  unfold runText
  refine shallow_checkArity.bind fun _ => ?_
  split
  case h_6 => exact shallow_newList _
  case h_9 => exact shallow_invalid
  all_goals exact shallow_pure

/-- The operations of numbers. -/
theorem shallow_runNumber (op : NumberOp) : (runNumber op args).Shallow := by
  unfold runNumber
  refine shallow_checkArity.bind fun _ => ?_
  split
  -- reading a text may find no number, and answers with null then
  case h_6 =>
    split
    · exact shallow_pure
    · exact shallow_pure
  case h_7 => exact shallow_invalid
  all_goals exact shallow_pure

/-- The size of a collection or a text. -/
theorem shallow_runLen : (runLen args).Shallow := by
  unfold runLen
  refine shallow_checkArity.bind fun _ => ?_
  split
  case h_4 => exact shallow_pure
  case h_5 => exact shallow_invalid
  all_goals exact shallow_reading.bind fun _ => shallow_pure

/-- The tests for kinds. -/
theorem shallow_runTest (kind : KindTest) : (runTest kind args).Shallow := by
  unfold runTest
  refine shallow_checkArity.bind fun _ => ?_
  split
  · exact shallow_pure
  · exact shallow_invalid

/-- Output can always be given. -/
theorem shallow_print (p : Printed) : (Eval.print p).Shallow := shallow_act fun _ _ => nofun

/-- **Built-in functions** overflow only if their callbacks do. -/
theorem shallow_run {call : Caller} (hcall : ∀ v vs, (call v vs).Shallow) :
    (f.run call args).Shallow := by
  cases f with
  | print =>
    exact (shallow_mapAll (fun _ => shallow_reading) args).bind fun _ =>
      (shallow_print _).bind fun _ => shallow_pure
  | date => exact (shallow_print _).bind fun _ => shallow_pure
  | len => exact shallow_runLen
  | test kind => exact shallow_runTest kind
  | sequence kind op => exact shallow_runSequence kind op
  | tupleSize => exact shallow_runTupleSize
  | listPop => exact shallow_runListPop
  | map op => exact shallow_runMap op
  | enum op => exact shallow_runEnum hcall op
  | text op => exact shallow_runText op
  | number op => exact shallow_runNumber op

end Native

/-! ### Calls -/

section Calls

open Eval

/-- Parameters are declared one after the other. -/
theorem shallow_bindNames (s : ScopeId) (names : List String) (vs : List Value) :
    (bindNames s names vs).Shallow := by
  fun_induction bindNames s names vs with
  | case1 name names v vs ih => exact (shallow_declare s name v).bind fun _ => ih
  | case2 => exact shallow_pure

/-- A new scope can always be made. -/
theorem shallow_newScope (s : ScopeId) : (newScope s).Shallow := shallow_act fun _ _ => nofun

/-- A loop signal that has come out of a body is an error of another kind. -/
theorem shallow_callResult (name : String) (flow : Flow) : (callResult name flow).Shallow := by
  cases flow with
  | normal v => exact shallow_pure
  | returning v => exact shallow_pure
  | breaking => exact shallow_fail fun _ => nofun
  | continuing => exact shallow_fail fun _ => nofun

/-- A body without fuel stops at its first statement, if there is one. -/
theorem shallow_runBlock_zero (s : ScopeId) (last : Value) (body : List Stmt) :
    (runBlock (evalStmt 0 s) last body).Shallow := by
  cases body with
  -- without fuel the first statement stops, so no flow is ever looked at
  | nil => exact shallow_pure
  | cons stmt body =>
    unfold runBlock
    refine Shallow.bind ?_ fun flow => ?_
    · unfold evalStmt
      exact shallow_exhausted
    · cases flow with
      | normal v => exact shallow_runBlock_zero s v body
      | returning v => exact shallow_pure
      | breaking => exact shallow_pure
      | continuing => exact shallow_pure

/-- A frame that is not refused overflows only if its body does. -/
theorem frame_ne_overflow {α : Type} {x : Eval α} {b : Bounds} {st : State} (hx : x.Shallow)
    (hle : st.depth + 1 ≤ b.limit) (l : Nat) : (frame x b st).1 ≠ .error (.stackOverflow l) := by
  have hbody := hx b { st with depth := st.depth + 1 } l
  -- the frame gives the ending of its body, and counts the call back
  rcases h : x b { st with depth := st.depth + 1 } with ⟨a | e | _, after⟩ <;> rw [h] at hbody
  · rw [frame_of_value hle h]
    exact nofun
  · rw [frame_of_error hle h]
    exact hbody
  · rw [frame_of_exhausted hle h]
    exact nofun

end Calls

end AtomScript
