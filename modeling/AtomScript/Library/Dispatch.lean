import AtomScript.Library.Sequence
import AtomScript.Library.Traversal
import AtomScript.Library.Plain

/-!
# Running a built-in function
-/

namespace AtomScript.Native

/-- Runs a built-in function on its arguments; `call` is how it calls back. -/
def run (call : Caller) (f : Native) (args : List Value) : Eval Value :=
  match f with
  | print => runPrint args
  | date => runDate
  | len => runLen args
  | test kind => runTest kind args
  | sequence kind op => runSequence kind op args
  | tupleSize => runTupleSize args
  | listPop => runListPop args
  | map op => runMap op args
  | enum op => runEnum call op args
  | text op => runText op args
  | number op => runNumber op args

end AtomScript.Native
