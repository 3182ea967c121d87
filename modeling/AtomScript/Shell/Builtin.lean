import AtomScript.Shell.Command
import AtomScript.Shell.Style

/-!
# The commands of the shell

`help`, `quit` and `exit`, `watch`, `env` and `reset`, and the text that `help` prints.
-/

namespace AtomScript

/-- The interactive shell: a session, and whether its texts are coloured. -/
structure Shell where
  session : Session
  colors : Bool
  deriving Inhabited

namespace Shell

/-- Prints lines in the session of the shell. -/
def printLines (sh : Shell) (lines : List String) : Shell :=
  let st := sh.session.state
  { sh with session := { sh.session with
      state := { st with output := st.output ++ (lines.map Printed.line).toArray } } }

/-! ### Help -/

/-- What each global function does. -/
def globalDescriptions : List String :=
  ["print(values...) prints its arguments separated by spaces",
   "date() prints the current local date and time",
   "len(value) size of a tuple, list, map or string",
   "is_boolean(value) true for booleans",
   "is_atom(value) true for atoms",
   "is_number(value) true for numbers",
   "is_tuple(value) true for tuples",
   "is_list(value) true for lists",
   "is_map(value) true for maps",
   "is_string(value) true for strings",
   "is_function(value) true for any callable"]

/-- The functions of a module, in the order of their names. -/
def memberList (m : Library) : String :=
  ", ".intercalate ((m.members.map (·.1)).mergeSort fun a b => (compare a b).isLE)

/-- The names bound to library modules, with the functions of the modules. -/
def moduleLines (sh : Shell) : List String :=
  sh.session.allBindings.filterMap fun (name, v) =>
    match v with
    | .library m =>
      some ("  " ++ Style.cyan.paint sh.colors (name ++ ":") ++ " " ++ memberList m)
    | _ => none

/-- The text of `help`. -/
def helpLines (sh : Shell) : List String :=
  let bold := Style.bold.paint sh.colors
  let green := Style.green.paint sh.colors
  let cyan := Style.cyan.paint sh.colors
  let name := Style.brightGreen.paint sh.colors
  [bold "Dex Language Help", bold "=================", "",
   green "Basics:",
   "  " ++ cyan "x = 1" ++ "          - Bind or reassign",
   "  " ++ cyan "let x = 1" ++ "      - Declare in the current scope",
   "  " ++ cyan "\x7ba, b\x7d = \x7b1, 2\x7d" ++ "  - Destructure a tuple",
   "  " ++ cyan "\"x is #\x7bx\x7d\"" ++ "     - Interpolate into a string",
   "",
   green "Control flow:",
   "  " ++ cyan "if x > 1 do ... elif x == 1 do ... else ... end",
   "  " ++ cyan "while i < 10 do ... end",
   "  " ++ cyan "def add(a, b) do return a + b end",
   "  " ++ cyan "double = fn (x) -> x * 2 end",
   "",
   green "Global functions:"] ++
  globalDescriptions.map ("  " ++ ·) ++
  ["", green "Modules:"] ++ sh.moduleLines ++
  ["", green "Commands:",
   "  " ++ name "env [all]" ++ "       - Show user bindings",
   "  " ++ name "reset" ++ "           - Clear every binding",
   "  " ++ name "watch <file>" ++ "    - Re-run a file when it changes",
   "  " ++ name "help" ++ "            - Show this help",
   "  " ++ Style.brightRed.paint sh.colors "quit / exit" ++ "     - Exit the REPL"]

/-! ### The commands -/

def runHelp (_ : String) (sh : Shell) : Response × Shell :=
  (.success, sh.printLines sh.helpLines)

def runQuit (_ : String) (sh : Shell) : Response × Shell :=
  (.exit, sh)

def runWatch (args : String) (sh : Shell) : Response × Shell :=
  if args.isEmpty then (.error "Usage: watch <file>", sh) else (.watch args, sh)

/-- A listing of bindings, one a line. -/
def listing (sh : Shell) (bindings : List (String × Value)) : String :=
  if bindings.isEmpty then Style.dimmed.paint sh.colors "No bindings"
  else
    "\n".intercalate <| bindings.map fun (name, v) =>
      Style.brightGreen.paint sh.colors name ++ " = " ++ sh.session.inspect v

def runEnv (args : String) (sh : Shell) : Response × Shell :=
  if args.isEmpty then (.message (sh.listing sh.session.localBindings), sh)
  else if args == "all" then (.message (sh.listing sh.session.allBindings), sh)
  else (.error "Usage: env [all]", sh)

def runReset (_ : String) (sh : Shell) : Response × Shell :=
  (.message (Style.brightGreen.paint sh.colors "Environment reset"),
    { sh with session := sh.session.reset })

/-- The commands of the shell. -/
def registry : Registry Shell :=
  [⟨"help", runHelp⟩, ⟨"quit", runQuit⟩, ⟨"exit", runQuit⟩, ⟨"watch", runWatch⟩, ⟨"env", runEnv⟩,
   ⟨"reset", runReset⟩].foldl Registry.register []

end Shell

end AtomScript
