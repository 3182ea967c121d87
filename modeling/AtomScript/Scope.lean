import AtomScript.Error
import AtomScript.Text.Quoted
import Std.Data.TreeMap
import Std.Data.TreeSet

/-!
# Scopes

Scopes form a tree.  A scope owns its bindings and remembers the scopes around it, innermost first;
its *chain* is the scope itself followed by these.  A name means the binding of the first scope on
the chain that owns it.

A constant can be neither assigned nor declared again, nor hidden by a scope inside.
-/

namespace AtomScript

/-- What a name is bound to. -/
structure Binding where
  value : Value
  constant : Bool
  deriving Inhabited

/-- One scope. -/
structure Scope where
  bindings : Std.TreeMap String Binding compare
  /-- The scopes around this one, innermost first. -/
  outer : List ScopeId

/-- The scopes of a session. -/
structure ScopeTree where
  scopes : Array Scope

namespace Scope

/-- A scope without bindings. -/
def bare (outer : List ScopeId) : Scope := ⟨∅, outer⟩

instance : Inhabited Scope := ⟨bare []⟩

/-- The binding that the scope itself owns. -/
def find? (s : Scope) (name : String) : Option Binding := s.bindings[name]?

def owns (s : Scope) (name : String) : Bool := s.bindings.contains name

/-- Binds a name in the scope itself. -/
def bind (s : Scope) (name : String) (b : Binding) : Scope :=
  { s with bindings := s.bindings.insert name b }

end Scope

namespace ScopeTree

/-- The tree without scopes. -/
def empty : ScopeTree := ⟨#[]⟩

instance : Inhabited ScopeTree := ⟨empty⟩

def size (t : ScopeTree) : Nat := t.scopes.size

/-- The scope at an address. -/
def scope (t : ScopeTree) (s : ScopeId) : Scope :=
  t.scopes.getD s (.bare [])

/-- Adds a scope; its address is the size of the tree before. -/
def push (t : ScopeTree) (s : Scope) : ScopeTree :=
  ⟨t.scopes.push s⟩

/-- The tree with one more scope, which is inside no other. -/
def addRoot (t : ScopeTree) : ScopeTree :=
  t.push (.bare [])

/-- The scope itself and the scopes around it, innermost first. -/
def chain (t : ScopeTree) (s : ScopeId) : List ScopeId :=
  s :: (t.scope s).outer

/-- The tree with one more scope, inside the given one. -/
def addChild (t : ScopeTree) (s : ScopeId) : ScopeTree :=
  t.push (.bare (t.chain s))

/-- The scope directly around the given one. -/
def parent? (t : ScopeTree) (s : ScopeId) : Option ScopeId :=
  (t.scope s).outer.head?

/-- The number of scopes on the chain. -/
def depth (t : ScopeTree) (s : ScopeId) : Nat :=
  (t.chain s).length

/-! ### What a name means -/

/-- The innermost scope on the chain that owns the name. -/
def owner? (t : ScopeTree) (s : ScopeId) (name : String) : Option ScopeId :=
  (t.chain s).find? fun o => (t.scope o).owns name

/-- The binding that the name means. -/
def resolve? (t : ScopeTree) (s : ScopeId) (name : String) : Option Binding :=
  (t.chain s).findSome? fun o => (t.scope o).find? name

/-- The value that the name means. -/
def lookup (t : ScopeTree) (s : ScopeId) (name : String) : Except Error Value :=
  match t.resolve? s name with
  | some b => .ok b.value
  | none => .error (.undefined name)

/-- The name means something. -/
def contains (t : ScopeTree) (s : ScopeId) (name : String) : Bool :=
  (t.chain s).any fun o => (t.scope o).owns name

/-- The scope itself owns the name. -/
def hasLocal (t : ScopeTree) (s : ScopeId) (name : String) : Bool :=
  (t.scope s).owns name

/-- The name means a constant. -/
def isConstant (t : ScopeTree) (s : ScopeId) (name : String) : Bool :=
  (t.resolve? s name).any (·.constant)

/-! ### Binding names -/

/-- Binds the name in the scope itself. -/
def bind (t : ScopeTree) (s : ScopeId) (name : String) (b : Binding) : ScopeTree :=
  ⟨t.scopes.modify s (·.bind name b)⟩

/-- The scope in which a declaration binds the name: the scope itself, unless the name means a
constant. -/
def declareIn (t : ScopeTree) (s : ScopeId) (name : String) : Except Error ScopeId :=
  if t.isConstant s name then .error (.constant name) else .ok s

/-- The scope in which an assignment binds the name: the one that owns it, unless it does so as a
constant. -/
def assignIn (t : ScopeTree) (s : ScopeId) (name : String) : Except Error ScopeId :=
  match t.owner? s name with
  | none => .error (.undefined name)
  | some o =>
    if ((t.scope o).find? name).any (·.constant) then .error (.constant name) else .ok o

/-- Binds the name in the scope itself. -/
def declare (t : ScopeTree) (s : ScopeId) (name : String) (v : Value) (constant : Bool) :
    Except Error ScopeTree :=
  (t.declareIn s name).map fun o => t.bind o name ⟨v, constant⟩

/-- Changes the value of the name in the scope that owns it. -/
def assign (t : ScopeTree) (s : ScopeId) (name : String) (v : Value) :
    Except Error ScopeTree :=
  (t.assignIn s name).map fun o => t.bind o name ⟨v, false⟩

/-! ### Listings

A table has no order of its own, so whatever goes through one does so in an order that it does not
choose.  Listings are sorted at the end. -/

/-- An order in which the table of each scope is gone through. -/
structure TableOrder (t : ScopeTree) where
  bindings : ScopeId → List (String × Binding)
  perm : ∀ s, (bindings s).Perm (t.scope s).bindings.toList

/-- Every table is gone through by name. -/
def TableOrder.byName (t : ScopeTree) : t.TableOrder :=
  ⟨fun s => (t.scope s).bindings.toList, fun _ => .refl _⟩

/-- What has been gathered for a listing. -/
structure Gathered where
  seen : Std.TreeSet String compare
  bindings : List (String × Value)

namespace Gathered

def empty : Gathered := ⟨∅, []⟩

/-- Takes a binding up, unless its name has been seen. -/
def add (g : Gathered) (b : String × Binding) : Gathered :=
  if b.1 ∈ g.seen then g else ⟨g.seen.insert b.1, g.bindings ++ [(b.1, b.2.value)]⟩

end Gathered

/-- Gathers the bindings of the scope, and then those of the scopes around it, innermost first. -/
def collect (t : ScopeTree) (order : t.TableOrder) (s : ScopeId) (g : Gathered) : Gathered :=
  (t.chain s).foldl (fun g o => (order.bindings o).foldl .add g) g

/-- The bindings in the order of their names. -/
def sortByName (bs : List (String × Value)) : List (String × Value) :=
  bs.mergeSort fun a b => (compare a.1 b.1).isLE

/-- Every name that means something with its value, by name. -/
def allBindings (t : ScopeTree) (s : ScopeId) (order : t.TableOrder := .byName t) :
    List (String × Value) :=
  sortByName (t.collect order s .empty).bindings

/-- Every name that means something, in order. -/
def names (t : ScopeTree) (s : ScopeId) (order : t.TableOrder := .byName t) : List String :=
  (t.allBindings s order).map (·.1)

/-- The bindings that the scope itself owns, constants apart, by name. -/
def localBindings (t : ScopeTree) (s : ScopeId) (order : t.TableOrder := .byName t) :
    List (String × Value) :=
  sortByName (((order.bindings s).filter fun b => !b.2.constant).map fun b => (b.1, b.2.value))

/-- A description of the scope: the names it owns and its depth. -/
def describe (t : ScopeTree) (s : ScopeId) : String :=
  let own := (t.scope s).bindings.toList.map fun b => Text.quoted b.1
  "Environment \x7b names: [" ++ ", ".intercalate own ++ "], depth: " ++ toString (t.depth s) ++
    " \x7d"

end ScopeTree

end AtomScript
