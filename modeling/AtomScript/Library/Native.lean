/-!
# The built-in functions

The language has a fixed set of built-in functions: a few global ones, and the members of six
library modules.  They are an enumeration, so a built-in function is identified by what it is; its
qualified name, its arity and the format of its arguments are tables over the enumeration.
-/

namespace AtomScript

/-- The kinds that a global `is_…` function tests for. -/
inductive KindTest where
  | boolean | atom | number | tuple | list | map | string | function
  deriving DecidableEq, Inhabited, Repr

/-- The two kinds of sequences: they differ in name only, and share their operations. -/
inductive SequenceKind where
  | tuple | list
  deriving DecidableEq, Inhabited, Repr

/-- The operations that tuples and lists share. -/
inductive SequenceOp where
  | get | append | deleteAt | insertAt
  /-- To the other kind of sequence. -/
  | convert
  deriving DecidableEq, Inhabited, Repr

inductive MapOp where
  | delete | fetch | replace | put | keys | values | toList
  deriving DecidableEq, Inhabited, Repr

inductive EnumOp where
  | map | filter | reduce | sum | sort
  deriving DecidableEq, Inhabited, Repr

inductive TextOp where
  | length | upcase | downcase | reverse | trim | split | contains | concat
  deriving DecidableEq, Inhabited, Repr

inductive NumberOp where
  | floor | ceil | round | abs | toText | parse
  deriving DecidableEq, Inhabited, Repr

/-- The built-in functions. -/
inductive Native where
  | print | date | len
  | test (kind : KindTest)
  | sequence (kind : SequenceKind) (op : SequenceOp)
  | tupleSize
  | listPop
  | map (op : MapOp)
  | enum (op : EnumOp)
  | text (op : TextOp)
  | number (op : NumberOp)
  deriving DecidableEq, Inhabited, Repr

/-- The library modules. -/
inductive Library where
  | tuple | list | map | enum | string | number
  deriving DecidableEq, Inhabited, Repr

/-! ### Names -/

namespace KindTest

def all : List KindTest := [boolean, atom, number, tuple, list, map, string, function]

def kindName : KindTest → String
  | boolean => "boolean" | atom => "atom" | number => "number" | tuple => "tuple"
  | list => "list" | map => "map" | string => "string" | function => "function"

end KindTest

namespace SequenceKind

/-- The kind as messages name it. -/
def noun : SequenceKind → String
  | tuple => "tuple" | list => "list"

def other : SequenceKind → SequenceKind
  | tuple => list | list => tuple

def library : SequenceKind → Library
  | tuple => .tuple | list => .list

end SequenceKind

namespace Library

/-- The modules in the order of their installation. -/
def all : List Library := [tuple, list, map, enum, string, number]

def name : Library → String
  | tuple => "Tuple" | list => "List" | map => "Map" | enum => "Enum"
  | string => "String" | number => "Number"

end Library

/-- The last part of the name of a sequence operation. -/
def SequenceOp.memberName (kind : SequenceKind) : SequenceOp → String
  | get => "at" | append => "append" | deleteAt => "delete_at" | insertAt => "insert_at"
  | convert => "to_" ++ kind.other.noun

def MapOp.memberName : MapOp → String
  | delete => "delete" | fetch => "fetch" | replace => "replace" | put => "put"
  | keys => "keys" | values => "values" | toList => "to_list"

def EnumOp.memberName : EnumOp → String
  | map => "map" | filter => "filter" | reduce => "reduce" | sum => "sum" | sort => "sort"

def TextOp.memberName : TextOp → String
  | length => "length" | upcase => "upcase" | downcase => "downcase" | reverse => "reverse"
  | trim => "trim" | split => "split" | contains => "contains" | concat => "concat"

def NumberOp.memberName : NumberOp → String
  | floor => "floor" | ceil => "ceil" | round => "round" | abs => "abs"
  | toText => "to_string" | parse => "parse"

/-- The functions of a module, by their names in it. -/
def Library.members : Library → List (String × Native)
  | tuple =>
    ([.get, .append, .deleteAt, .insertAt, .convert].map fun op =>
      (op.memberName .tuple, Native.sequence .tuple op)) ++ [("size", .tupleSize)]
  | list =>
    ([.get, .append, .deleteAt, .insertAt, .convert].map fun op =>
      (op.memberName .list, Native.sequence .list op)) ++ [("pop", .listPop)]
  | map =>
    [.delete, .fetch, .replace, .put, .keys, .values, .toList].map fun op =>
      (op.memberName, Native.map op)
  | enum =>
    [.map, .filter, .reduce, .sum, .sort].map fun op => (op.memberName, Native.enum op)
  | string =>
    [.length, .upcase, .downcase, .reverse, .trim, .split, .contains, .concat].map fun op =>
      (op.memberName, Native.text op)
  | number =>
    [.floor, .ceil, .round, .abs, .toText, .parse].map fun op => (op.memberName, Native.number op)

/-- The function of the given name in a module. -/
def Library.find? (m : Library) (name : String) : Option Native :=
  m.members.lookup name

namespace Native

/-- The global functions, in the order of their installation. -/
def globals : List Native :=
  [print, date, len] ++ KindTest.all.map test

/-- The qualified name. -/
def name : Native → String
  | print => "print"
  | date => "date"
  | len => "len"
  | test kind => "is_" ++ kind.kindName
  | sequence kind op => kind.library.name ++ "." ++ op.memberName kind
  | tupleSize => "Tuple.size"
  | listPop => "List.pop"
  | map op => "Map." ++ op.memberName
  | enum op => "Enum." ++ op.memberName
  | text op => "String." ++ op.memberName
  | number op => "Number." ++ op.memberName

/-- The number of arguments and their format, for the functions that have a fixed number. -/
def format : Native → Nat × String
  | print | date => (0, "(values...)")
  | len => (1, "(tuple | list | map | string)")
  | test _ => (1, "(value)")
  | sequence kind .get => (2, "(" ++ kind.noun ++ ", index)")
  | sequence kind .append => (2, "(" ++ kind.noun ++ ", element)")
  | sequence kind .deleteAt => (2, "(" ++ kind.noun ++ ", index)")
  | sequence kind .insertAt => (3, "(" ++ kind.noun ++ ", index, value)")
  | sequence kind .convert => (1, "(" ++ kind.noun ++ ")")
  | tupleSize => (1, "(tuple)")
  | listPop => (1, "(list)")
  | map .delete | map .fetch => (2, "(map, key)")
  | map .replace | map .put => (3, "(map, key, value)")
  | map .keys | map .values | map .toList => (1, "(map)")
  | enum .map | enum .filter => (2, "(enumerable, fn)")
  | enum .reduce => (3, "(enumerable, acc, fn)")
  | enum .sum | enum .sort => (1, "(list)")
  | text .split => (2, "(string, separator)")
  | text .contains => (2, "(string, pattern)")
  | text .concat => (2, "(string, string)")
  | text _ => (1, "(string)")
  | number .parse => (1, "(string)")
  | number _ => (1, "(number)")

/-- The number of arguments. -/
def arity (f : Native) : Nat := f.format.1

/-- The name with the number of arguments, as messages show it. -/
def signature (f : Native) : String :=
  f.name ++ "/" ++ toString f.arity

end Native

end AtomScript
