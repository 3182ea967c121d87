import AtomScript.Scope
import AtomScript.Heap.Detach
import AtomScript.Heap.Inspect

/-!
# Computations

A computation of the language reads and changes the `State` of a session: the heap, the scopes, the
number of active calls, and what has been printed.  It ends in one of three ways (`Ending`): with a
value, with an error of the language, or — because the evaluator is total — before its time, when
its fuel is used up.  Whatever the ending, the changes made until then remain.

All that a computation does to the state goes through `Eval.act`, which names it by an `Event`.  A
run can be given a `Watch`: it is shown each event, with the states before and after, and the run is
broken off before the first one that it objects to.  So the states that a run passes through are the
states of its endings under the various watches.

* `Eval.act` — an event: the only way to change the state, calls apart.
* `Eval.frame` — a call: refused when the limit of active calls is reached, and counted while it
  lasts.
-/

namespace AtomScript

/-- Something printed. -/
inductive Printed where
  | line (text : String)
  /-- A line with the date and time at which it is written. -/
  | now
  deriving DecidableEq, Inhabited

/-- What computations read and change. -/
structure State where
  heap : Heap
  scopes : ScopeTree
  /-- The number of functions made so far; the next one takes it as its identity. -/
  functions : Nat
  /-- The number of active calls. -/
  depth : Nat
  output : Array Printed
  deriving Inhabited

/-- What a computation does to the state, as a watch is told of it. -/
inductive Event where
  /-- New cells. -/
  | allocate
  /-- The elements of a sequence are edited in place. -/
  | edit (r : Ref)
  /-- A key of a map is given a value. -/
  | put (r : Ref)
  /-- The value of a present key of a map is changed. -/
  | replace (r : Ref)
  /-- A key of a map is removed. -/
  | delete (r : Ref)
  /-- The keys of a map are given out as they are stored.  The state stays as it is. -/
  | lend (r : Ref)
  /-- A new scope. -/
  | enter
  /-- A name is bound. -/
  | bind
  /-- A new function. -/
  | identify
  | print
  deriving DecidableEq, Inhabited

/-- Whether an event may take place, given the states before and after it. -/
abbrev Watch := Event → State → State → Bool

/-- What a run may not go beyond. -/
structure Bounds where
  /-- How many calls may be active at a time. -/
  limit : Nat
  /-- An unwatched run is never broken off. -/
  watch : Option Watch := none

/-- The ways in which a computation ends. -/
inductive Ending (α : Type) where
  | value (a : α)
  | error (e : Error)
  /-- The fuel ran out, or the watch objected. -/
  | exhausted
  deriving Inhabited

/-- A computation, within bounds. -/
def Eval (α : Type) : Type := Bounds → State → Ending α × State

namespace Eval

variable {α β : Type}

@[always_inline, inline]
protected def pure (a : α) : Eval α := fun _ st => (.value a, st)

@[always_inline, inline]
protected def bind (x : Eval α) (f : α → Eval β) : Eval β := fun bounds st =>
  match x bounds st with
  | (.value a, st) => f a bounds st
  | (.error e, st) => (.error e, st)
  | (.exhausted, st) => (.exhausted, st)

@[always_inline]
instance : Monad Eval where
  pure := Eval.pure
  bind := Eval.bind

/-- Fails with an error of the language. -/
@[always_inline, inline]
def fail (e : Error) : Eval α := fun _ st => (.error e, st)

/-- Stops for want of fuel. -/
@[always_inline, inline]
def exhausted : Eval α := fun _ st => (.exhausted, st)

/-- Reads the state. -/
@[always_inline, inline]
def reading (f : State → α) : Eval α := fun _ st => (.value (f st), st)

/-- Does something to the state.  Under a watch this is shown to it first, and not done if the watch
objects; a failure is no event. -/
@[always_inline, inline]
def act (event : Event) (f : State → Ending α × State) : Eval α := fun bounds st =>
  match bounds.watch with
  | none => f st
  | some watch =>
    match f st with
    | (.value a, after) => if watch event st after then (.value a, after) else (.exhausted, st)
    | failed => failed

/-! ### The heap -/

/-- The text of a value. -/
def inspect (v : Value) : Eval String :=
  reading fun st => st.heap.inspect v

/-- The text that a value adds to a string. -/
def rawText (v : Value) : Eval String :=
  reading fun st => st.heap.rawText v

/-- A new cell. -/
def alloc (c : Cell) : Eval Ref := act .allocate fun st =>
  (.value st.heap.size, { st with heap := st.heap.push c })

def newTuple (items : List Value) : Eval Value := do
  return .tuple (← alloc (.tuple items.toArray))

def newList (items : List Value) : Eval Value := do
  return .list (← alloc (.list items.toArray))

def newMap (t : Table) : Eval Value := do
  return .map (← alloc (.map t))

/-- The elements of a sequence. -/
def items (r : Ref) : Eval (Array Value) :=
  reading fun st => st.heap.items r

/-- The table of a map. -/
def table (r : Ref) : Eval Table :=
  reading fun st => st.heap.table r

def editItems (r : Ref) (f : Array Value → Array Value) : Eval Unit := act (.edit r) fun st =>
  (.value (), { st with heap := st.heap.editItems r f })

/-- Changes the table of a map; the change may look at the heap. -/
def editTable (event : Ref → Event) (r : Ref) (f : Heap → Table → Table) : Eval Unit :=
  act (event r) fun st => (.value (), { st with heap := st.heap.editTable r (f st.heap) })

/-- The detached copy of a value that serves as a map key. -/
def detachKey (v : Value) : Eval Value := act .allocate fun st =>
  match st.heap.detach v with
  | .ok (copy, heap) => (.value copy, { st with heap := heap })
  | .error kind => (.error (.selfContainingKey kind), st)

/-! ### Scopes -/

/-- A new scope inside the given one. -/
def newScope (s : ScopeId) : Eval ScopeId := act .enter fun st =>
  (.value st.scopes.size, { st with scopes := st.scopes.addChild s })

/-- The value that a name means. -/
def lookup (s : ScopeId) (name : String) : Eval Value := do
  match ← reading fun st => st.scopes.lookup s name with
  | .ok v => return v
  | .error e => fail e

/-- Binds a name in the scope itself. -/
def declare (s : ScopeId) (name : String) (v : Value) : Eval Unit := act .bind fun st =>
  match st.scopes.declareIn s name with
  | .ok o => (.value (), { st with scopes := st.scopes.bind o name ⟨v, false⟩ })
  | .error e => (.error e, st)

/-- Changes the value of a name in the scope that owns it. -/
def assign (s : ScopeId) (name : String) (v : Value) : Eval Unit := act .bind fun st =>
  match st.scopes.assignIn s name with
  | .ok o => (.value (), { st with scopes := st.scopes.bind o name ⟨v, false⟩ })
  | .error e => (.error e, st)

/-- Gives a name a value: in the scope that owns it, or else in the scope itself. -/
def rebind (s : ScopeId) (name : String) (v : Value) : Eval Unit := do
  if ← reading fun st => st.scopes.contains s name then assign s name v
  else declare s name v

/-! ### Functions, output and calls -/

/-- The identity of a new function. -/
def newIdentity : Eval Nat := act .identify fun st =>
  (.value st.functions, { st with functions := st.functions + 1 })

/-- Prints. -/
def print (p : Printed) : Eval Unit := act .print fun st =>
  (.value (), { st with output := st.output.push p })

/-- Runs a call.  It is refused when the limit of active calls is reached; it counts as active until
it ends, with a value or an error. -/
@[inline]
def frame (body : Eval α) : Eval α := fun bounds st =>
  if bounds.limit < st.depth + 1 then (.error (.stackOverflow bounds.limit), st)
  else
    match body bounds { st with depth := st.depth + 1 } with
    | (.exhausted, st) => (.exhausted, st)
    | (ending, st) => (ending, { st with depth := st.depth - 1 })

/-! ### Lists of computations -/

/-- Runs a computation for each member, in order, and gathers the results. -/
def mapAll (f : α → Eval β) : List α → Eval (List β)
  | [] => return []
  | a :: as => do
    let b ← f a
    let bs ← mapAll f as
    return b :: bs

/-- Runs a computation for each member, in order, carrying a result along. -/
def foldAll (f : β → α → Eval β) : β → List α → Eval β
  | b, [] => return b
  | b, a :: as => do
    let b ← f b a
    foldAll f b as

end Eval

end AtomScript
