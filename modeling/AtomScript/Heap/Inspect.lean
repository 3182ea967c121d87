import AtomScript.Heap.Order
import AtomScript.Number.Printer

/-!
# The text of a value

Values are shown in a form close to their source text: strings in quotes, atoms with their colon,
aggregates with their elements, maps in the order of their keys.  An aggregate that contains itself
is cut short: where it occurs inside itself only its brackets are shown, around three dots.
-/

namespace AtomScript.Heap

/-- The opening and the closing bracket of an aggregate. -/
def brackets : Value → String × String
  | .list _ => ("[", "]")
  | .map _ => ("%\x7b", "\x7d")
  | _ => ("\x7b", "\x7d")

/-- The text of a value that is no aggregate. -/
def inspectPlain : Value → String
  | .null => "null"
  | .number x => x.inspect
  | .string s => "\"" ++ s ++ "\""
  | .boolean b => if b then "true" else "false"
  | .atom name => ":" ++ name
  | .function f => "#Function<" ++ f.name ++ "/" ++ toString f.params.length ++ ">"
  | .lambda f => "#Function<anonymous/" ++ toString f.params.length ++ ">"
  | .native f => "#NativeFunction<" ++ f.name ++ ">"
  | .library m => "#Module<" ++ m.name ++ ">"
  | .tuple _ | .list _ | .map _ => ""

set_option linter.unusedVariables false in
/-- The text of a value inside the aggregates of `path`. -/
def inspectFrom (h : Heap) (path : List Ref) (v : Value) : String :=
  match v.ref? with
  | none => inspectPlain v
  | some r =>
    let (opening, closing) := brackets v
    if hp : r ∈ path then opening ++ "..." ++ closing
    else if hr : r < h.size then
      let inner :=
        match v with
        | .map _ =>
          (h.sortedEntries r).map fun e =>
            inspectFrom h (r :: path) e.key ++ " => " ++ inspectFrom h (r :: path) e.value
        | _ => (h.items r).toList.map fun item => inspectFrom h (r :: path) item
      opening ++ ", ".intercalate inner ++ closing
    else opening ++ closing
termination_by unopened path h.refs
decreasing_by all_goals exact unopened_cons_lt (mem_refs.2 hr) hp

/-- The text of a value. -/
def inspect (h : Heap) (v : Value) : String :=
  h.inspectFrom [] v

/-- The text that a value adds to a string: a string its characters, everything else its text. -/
def rawText (h : Heap) : Value → String
  | .string s => s
  | v => h.inspect v

end AtomScript.Heap
