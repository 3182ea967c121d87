import AtomScript.Shell.Interaction
import AtomScript.Shell.Options

/-!
# Running the program

A run of the program, from its arguments, its input and the world around it, to its exit code and
what it writes.
-/

namespace AtomScript

/-- The result of a run: the exit code, and the lines written to the two outputs. -/
structure Invocation where
  code : Nat
  out : List String
  err : List String
  deriving DecidableEq, Inhabited

/-- Why a file or a text could not be run to its end. -/
inductive RunError where
  | language (e : Error)
  /-- The file cannot be read. -/
  | unreadable (path : String)
  deriving Inhabited

def RunError.message : RunError → String
  | .language e => e.message
  | .unreadable path => "Failed to read " ++ path

/-- Runs a file in a session. -/
def Session.runFile (host : Host) (path : String) (s : Session) :
    Except RunError (Outcome Value) × Session :=
  match host.fileText path with
  | none => (.error (.unreadable path), s)
  | some source =>
    match s.run host.fuel source with
    | (.error e, s) => (.error (.language e), s)
    | (outcome, s) => (.ok outcome, s)

namespace Invocation

/-- The result of a run that failed. -/
def failure (host : Host) (out : List String) (message : String) : Invocation :=
  ⟨1, out, [errorReport host.colors message]⟩

/-- The lines that a session has printed. -/
def printed (host : Host) (s : Session) : List String :=
  s.takeOutput.1.map (·.text host.clock)

/-- Evaluates a text and shows its value, unless that is `null`. -/
def evaluate (host : Host) (s : Session) (source : String) : Invocation :=
  match s.run host.fuel source with
  | (.value v, s) =>
    ⟨0, printed host s ++ (if v.isNull then [] else [s.show host.colors v]), []⟩
  | (.error e, s) => failure host (printed host s) e.message
  | (.exhausted, s) => ⟨1, printed host s, []⟩

/-- Runs a file. -/
def runFile (host : Host) (s : Session) (path : String) : Invocation :=
  match s.runFile host path with
  | (.ok _, s) => ⟨0, printed host s, []⟩
  | (.error e, s) => failure host (printed host s) e.message

/-- Runs a file for the first time and announces that it is watched. -/
def watchFile (host : Host) (s : Session) (path : String) : Invocation :=
  match host.watchFile path with
  | .error _ => failure host [] ("Failed to watch " ++ path)
  | .ok () =>
    let first := runFile host s path
    ⟨0, first.out ++ [Style.brightCyan.paint host.colors "watch" ++ " Watching " ++
      Style.brightGreen.paint host.colors path ++ " for changes, Ctrl+C to stop"], first.err⟩

/-- Runs a watched file again because it has changed: what is written, the report of the error if
there is one, and the session afterwards. -/
def reload (host : Host) (s : Session) (path : String) : List String × Option String × Session :=
  let announcement := Style.brightYellow.paint host.colors "reload" ++ " File changed: " ++ path
  let (outcome, s) := s.runFile host path
  let lines := announcement :: printed host s
  match outcome with
  | .ok _ =>
    (lines ++ [Style.brightGreen.paint host.colors "ok" ++ " Reloaded successfully"], none,
      s.takeOutput.2)
  | .error e => (lines, some (errorReport host.colors e.message), s.takeOutput.2)

/-- The version of the program. -/
def versionText : String := "dex 0.1.0"

/-- The text of `--help`. -/
def helpText : List String :=
  ["Run Dex scripts or start an interactive session", "",
   "Usage: dex [OPTIONS] [FILE]", "",
   "Arguments:",
   "  [FILE]  Script to run; starts the REPL when omitted", "",
   "Options:",
   "  -e, --eval <SOURCE>       Evaluate SOURCE and print its final value",
   "  -w, --watch               Re-run FILE every time it changes",
   "  -v, --verbose             Log debug diagnostics to stderr",
   "      --max-call-depth <N>  Maximum nesting of function calls before StackOverflow",
   "  -h, --help                Print help",
   "  -V, --version             Print version"]

/-- Runs the program. -/
def run (host : Host) (args : List String) (input : List String) : Invocation :=
  match Options.read args with
  | .error _ => ⟨2, [], ["error: invalid arguments", "", "For more information, try '--help'."]⟩
  | .ok (request, options) =>
    let session := Session.new (Limit.choose (host.setting Limit.variableName) options.limit)
    match request with
    | .version => ⟨0, [versionText], []⟩
    | .help => ⟨0, helpText, []⟩
    | .evaluate source => evaluate host session source
    | .runFile path => runFile host session path
    | .watchFile path => watchFile host session path
    | .interact =>
      ⟨0, Shell.banner host.colors ++ Shell.interactAll host input ⟨session, host.colors⟩, []⟩

end Invocation

end AtomScript
