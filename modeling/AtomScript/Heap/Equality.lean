import AtomScript.Heap.Basic

/-!
# Equality of values

Plain values are equal when they are the same, numbers up to the sign of zero; functions when they
are the same function; aggregates when they are the same cell or have equal contents.

Comparing two aggregates may come back to the same pair of cells.  No finite comparison decides such
a pair, and it counts as different.
-/

namespace AtomScript.Heap

/-- What a table files a value under. -/
def fingerprint (h : Heap) : Value → Fingerprint
  | .null => .null
  | .number x => .number x.identity
  | .string s => .string s
  | .boolean b => .boolean b
  | .atom name => .atom name
  | .tuple r => .tuple (h.items r).size
  | .list r => .list (h.items r).size
  | .map r => .map (h.table r).size
  | .function f => .function f.id
  | .lambda f => .lambda f.id
  | .native f => .native f
  | .library m => .library m

/-- Two lists of the same length whose members agree in pairs. -/
def allPairs {α : Type} (same : α → α → Bool) : List α → List α → Bool
  | [], [] => true
  | a :: as, b :: bs => same a b && allPairs same as bs
  | _, _ => false

/-- Every entry of the first table is found in the second, with the same value. -/
def sameTables (h : Heap) (same : Value → Value → Bool) (t u : Table) : Bool :=
  t.size == u.size && t.entries.all fun e =>
    match u.entries.find? fun f => f.filed == h.fingerprint e.key && same e.key f.key with
    | some f => same e.value f.value
    | none => false

/-- The contents of two cells agree: their elements, or their tables. -/
def sameContents (h : Heap) (same : Value → Value → Bool) (r s : Ref) : Bool :=
  allPairs same (h.items r).toList (h.items s).toList &&
    h.sameTables same (h.table r) (h.table s)

/-- Equality of two values that are no aggregates. -/
def equalPlain : Value → Value → Bool
  | .null, .null => true
  | .number x, .number y => x.identity == y.identity
  | .string s, .string t => s == t
  | .boolean a, .boolean b => a == b
  | .atom a, .atom b => a == b
  | .function f, .function g => f.id == g.id
  | .lambda f, .lambda g => f.id == g.id
  | .native f, .native g => f == g
  | .library m, .library n => m == n
  | _, _ => false

set_option linter.unusedVariables false in
/-- Equality of two values met inside the pairs of cells of `path`. -/
def equalFrom (h : Heap) (path : List (Ref × Ref)) (v w : Value) : Bool :=
  match v.ref?, w.ref? with
  | some r, some s =>
    if v.kind ≠ w.kind then false
    else if r = s then true
    else if hp : (r, s) ∈ path then false
    else if hr : r < h.size ∧ s < h.size then
      h.sameContents (fun a b => equalFrom h ((r, s) :: path) a b) r s
    else h.sameContents (fun _ _ => false) r s
  | _, _ => equalPlain v w
termination_by unopened path h.refPairs
decreasing_by exact unopened_cons_lt (mem_refPairs.2 hr) hp

/-- Equality of two values. -/
def equal (h : Heap) (v w : Value) : Bool :=
  h.equalFrom [] v w

end AtomScript.Heap
