import AtomScript.Library.Arguments
import AtomScript.Number.Reader
import AtomScript.Text.Blank
import AtomScript.Text.Case
import AtomScript.Text.Search

/-!
# Functions on texts and numbers, and the global functions
-/

namespace AtomScript.Native

open Eval

/-- The pieces of a text: its characters when the separator is empty. -/
def splitText (s separator : String) : List String :=
  if separator.isEmpty then s.toList.map fun c => String.ofList [c]
  else (Text.splitOn separator.toList s.toList).map String.ofList

/-- The operations of texts. -/
def runText (op : TextOp) (args : List Value) : Eval Value := do
  let f := Native.text op
  f.checkArity args
  match op, args with
  | .length, [.string s] => return .number (.ofNat s.length)
  | .upcase, [.string s] => return .string (Text.upcase s)
  | .downcase, [.string s] => return .string (Text.downcase s)
  | .reverse, [.string s] => return .string (String.ofList s.toList.reverse)
  | .trim, [.string s] => return .string (Text.trim s)
  | .split, [.string s, .string separator] =>
    newList ((splitText s separator).map .string)
  | .contains, [.string s, .string pattern] =>
    return .boolean (Text.occursIn pattern.toList s.toList)
  | .concat, [.string s, .string t] => return .string (s ++ t)
  | _, _ => f.invalid args

/-- The operations of numbers. -/
def runNumber (op : NumberOp) (args : List Value) : Eval Value := do
  let f := Native.number op
  f.checkArity args
  match op, args with
  | .floor, [.number x] => return .number x.floor
  | .ceil, [.number x] => return .number x.ceil
  | .round, [.number x] => return .number x.round
  | .abs, [.number x] => return .number x.abs
  | .toText, [.number x] => return .string x.inspect
  | .parse, [.string s] =>
    match Number.read? (Text.trim s) with
    | some x => return .number x
    | none => return .null
  | _, _ => f.invalid args

/-- The size of an aggregate, or the number of characters of a string. -/
def runLen (args : List Value) : Eval Value := do
  len.checkArity args
  match args with
  | [.tuple r] | [.list r] => return .number (.ofNat (← items r).size)
  | [.map r] => return .number (.ofNat (← table r).size)
  | [.string s] => return .number (.ofNat s.length)
  | _ => len.invalid args

/-- The value is of the kind tested for; every callable value counts as a function. -/
def holds : KindTest → Value → Bool
  | .boolean, .boolean _ => true
  | .atom, .atom _ => true
  | .number, .number _ => true
  | .tuple, .tuple _ => true
  | .list, .list _ => true
  | .map, .map _ => true
  | .string, .string _ => true
  | .function, v => v.isCallable
  | _, _ => false

def runTest (kind : KindTest) (args : List Value) : Eval Value := do
  (test kind).checkArity args
  match args with
  | [v] => return .boolean (holds kind v)
  | _ => (test kind).invalid args

/-- Prints the texts of the arguments on one line. -/
def runPrint (args : List Value) : Eval Value := do
  let texts ← mapAll inspect args
  Eval.print (.line (" ".intercalate texts))
  return .null

/-- Prints the date and time. -/
def runDate : Eval Value := do
  Eval.print .now
  return .null

end AtomScript.Native
