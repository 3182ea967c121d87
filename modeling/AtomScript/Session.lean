import AtomScript.Eval.Basic
import AtomScript.Program.Parser

/-!
# Sessions

A session is a limit on active calls and a state whose global scope holds the built-in names.  Texts
are run one after another; bindings and aggregates stay from one to the next, also after an error.
A run may be watched; programs are run unwatched.

* `Session.run` — the value of a text is that of its last statement;
* `Session.runStatements` — the values of all its statements;
* `Session.runLine` — those values that are worth showing;
* `Session.reset` — forgets what the programs so far have made.
-/

namespace AtomScript

/-- The outcome of a step of a session. -/
inductive Outcome (α : Type) where
  | value (a : α)
  | error (e : Error)
  /-- The fuel ran out, or the watch objected. -/
  | exhausted
  deriving DecidableEq, Inhabited

namespace Outcome

variable {α β : Type}

def ofEnding : Ending α → Outcome α
  | .value a => value a
  | .error e => error e
  | .exhausted => exhausted

def map (f : α → β) : Outcome α → Outcome β
  | value a => value (f a)
  | error e => error e
  | exhausted => exhausted

end Outcome

/-! ### The global scope -/

/-- The names that every session starts with, and their values. -/
def builtins : List (String × Value) :=
  [("null", .null), ("true", .boolean true), ("false", .boolean false)] ++
    Native.globals.map (fun f => (f.name, .native f)) ++
    Library.all.map (fun m => (m.name, .library m))

/-- The address of the global scope. -/
def globalScope : ScopeId := 0

/-- The tree with one more scope that is around no other, in which the built-in names are
constants. -/
def ScopeTree.addGlobal (t : ScopeTree) : ScopeTree :=
  builtins.foldl (fun u b => u.bind t.size b.1 ⟨b.2, true⟩) t.addRoot

/-- A scope tree with nothing but a global scope. -/
def globalScopes : ScopeTree := ScopeTree.empty.addGlobal

/-- The state that every session starts with. -/
def State.initial (hashing : Hashing := .arrival) : State :=
  { heap := .empty hashing, scopes := globalScopes, functions := 0, depth := 0, output := #[] }

/-- A session. -/
structure Session where
  /-- How many calls may be active at a time. -/
  limit : Nat
  state : State
  deriving Inhabited

namespace Session

variable {α : Type}

/-- A new session. -/
def new (limit : Nat) (hashing : Hashing := .arrival) : Session := ⟨limit, .initial hashing⟩

/-- Drops every binding, aggregate and function.  What has been printed stays printed.  The maps
made from now on have places of their own for their entries. -/
def reset (s : Session) : Session :=
  { s with state := { s.state with
      heap := .empty (s.state.heap.hashing.behind s.state.heap.size)
      scopes := State.initial.scopes
      functions := State.initial.functions } }

/-- Runs a computation in the session. -/
def perform (s : Session) (x : Eval α) (watch : Option Watch := none) : Outcome α × Session :=
  match x ⟨s.limit, watch⟩ s.state with
  | (ending, st) => (.ofEnding ending, { s with state := st })

/-- Reads a text and runs it: the values of its statements. -/
def runStatements (fuel : Nat) (source : String) (s : Session) (watch : Option Watch := none) :
    Outcome (List Value) × Session :=
  match Program.parse source with
  | .error e => (.error e, s)
  | .ok p => s.perform (evalProgram fuel globalScope p) watch

/-- Reads a text and runs it: the value of its last statement. -/
def run (fuel : Nat) (source : String) (s : Session) (watch : Option Watch := none) :
    Outcome Value × Session :=
  match Program.parse source with
  | .error e => (.error e, s)
  | .ok p => s.perform (evalLast fuel globalScope p) watch

/-- Reads a line and runs it: the values worth showing, which `null` is not. -/
def runLine (fuel : Nat) (line : String) (s : Session) (watch : Option Watch := none) :
    Outcome (List Value) × Session :=
  let (outcome, s) := s.runStatements fuel line watch
  (outcome.map (·.filter fun v => !v.isNull), s)

/-- Takes what has been printed out of the session. -/
def takeOutput (s : Session) : List Printed × Session :=
  (s.state.output.toList, { s with state := { s.state with output := #[] } })

/-- The text of a value. -/
def inspect (s : Session) (v : Value) : String := s.state.heap.inspect v

/-- The names bound by the programs run so far, with their values. -/
def localBindings (s : Session) : List (String × Value) :=
  s.state.scopes.localBindings globalScope

/-- All names, the built-in ones included, with their values. -/
def allBindings (s : Session) : List (String × Value) :=
  s.state.scopes.allBindings globalScope

end Session

end AtomScript
