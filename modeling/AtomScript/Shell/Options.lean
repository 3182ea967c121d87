import AtomScript.Shell.Limit

/-!
# Command-line options

The options may stand in any order and be bundled (`-vw`); a value is attached to its option
(`-e1`, `-e=1`, `--eval=1`) or is the next argument, which then must not look like an option.  No
option is given twice.  `--version` and `--help` take effect as soon as they are met, before what
follows is looked at.
-/

namespace AtomScript

/-- What the command line asks for. -/
inductive Request where
  /-- Evaluates a text and shows its value. -/
  | evaluate (source : String)
  | runFile (path : String)
  /-- Runs a file now and whenever it changes. -/
  | watchFile (path : String)
  /-- Starts the interactive shell. -/
  | interact
  | version
  | help
  deriving DecidableEq, Inhabited

/-- The options of a command line. -/
structure Options where
  file : Option String := none
  source : Option String := none
  watch : Bool := false
  verbose : Bool := false
  limit : Option Nat := none
  deriving DecidableEq, Inhabited

/-- Why a command line is refused. -/
inductive UsageError where
  | unknown (argument : String)
  | missingValue (option : String)
  | unwantedValue (option : String)
  | invalidValue (option value : String)
  | repeated (option : String)
  | conflict
  | missingFile
  deriving DecidableEq, Inhabited

namespace Options

/-- The options that stand alone. -/
inductive Flag where
  | watch | verbose | version | help
  deriving DecidableEq, Inhabited

/-- The options that take a value. -/
inductive Setting where
  | source | limit
  deriving DecidableEq, Inhabited

def Flag.name : Flag → String
  | watch => "watch" | verbose => "verbose" | version => "version" | help => "help"

def Setting.name : Setting → String
  | source => "eval" | limit => "max-call-depth"

/-- The options by their long names. -/
def long? (name : String) : Option (Flag ⊕ Setting) :=
  match name with
  | "watch" => some (.inl .watch)
  | "verbose" => some (.inl .verbose)
  | "version" => some (.inl .version)
  | "help" => some (.inl .help)
  | "eval" => some (.inr .source)
  | "max-call-depth" => some (.inr .limit)
  | _ => none

/-- The options by their letters. -/
def short? (c : Char) : Option (Flag ⊕ Setting) :=
  match c with
  | 'w' => some (.inl .watch)
  | 'v' => some (.inl .verbose)
  | 'V' => some (.inl .version)
  | 'h' => some (.inl .help)
  | 'e' => some (.inr .source)
  | _ => none

/-- What an argument has led to: reading goes on, with an option that still waits for its value or
not, or a request is already settled. -/
inductive Progress where
  | going (o : Options) (waiting : Option Setting)
  | settled (r : Request)
  deriving Inhabited

/-- Turns a flag on. -/
def setFlag (o : Options) : Flag → Except UsageError Progress
  | .watch =>
    if o.watch then .error (.repeated "watch") else .ok (.going { o with watch := true } none)
  | .verbose =>
    if o.verbose then .error (.repeated "verbose") else .ok (.going { o with verbose := true } none)
  | .version => .ok (.settled .version)
  | .help => .ok (.settled .help)

/-- Gives an option its value. -/
def setValue (o : Options) (s : Setting) (value : String) : Except UsageError Options :=
  match s with
  | .source =>
    if o.source.isSome then .error (.repeated s.name) else .ok { o with source := some value }
  | .limit =>
    if o.limit.isSome then .error (.repeated s.name)
    else
      match Limit.readWord? value with
      | some n => .ok { o with limit := some n }
      | none => .error (.invalidValue s.name value)

/-- Takes the one argument that is no option. -/
def setFile (o : Options) (path : String) : Except UsageError Options :=
  if o.file.isSome then .error (.unknown path)
  else if path.isEmpty then .error (.missingValue "FILE")
  else .ok { o with file := some path }

/-- Reads bundled letters. -/
def readLetters (o : Options) : List Char → Except UsageError Progress
  | [] => .ok (.going o none)
  | c :: cs =>
    match short? c with
    | none => .error (.unknown (String.ofList ['-', c]))
    | some (.inl flag) =>
      match o.setFlag flag with
      | .ok (.going o _) =>
        match cs with
        | '=' :: _ => .error (.unwantedValue flag.name)
        | _ => readLetters o cs
      | other => other
    | some (.inr setting) =>
      match cs with
      | [] => .ok (.going o (some setting))
      | '=' :: value => (o.setValue setting (String.ofList value)).map (.going · none)
      | value => (o.setValue setting (String.ofList value)).map (.going · none)

/-- Reads an option with a long name. -/
def readLong (o : Options) (cs : List Char) : Except UsageError Progress :=
  let name := String.ofList (cs.takeWhile (· != '='))
  match long? name, cs.dropWhile (· != '=') with
  | none, _ => .error (.unknown ("--" ++ name))
  | some (.inl flag), [] => o.setFlag flag
  | some (.inl flag), _ => .error (.unwantedValue flag.name)
  | some (.inr setting), [] => .ok (.going o (some setting))
  | some (.inr setting), _ :: value =>
    (o.setValue setting (String.ofList value)).map (.going · none)

/-- Reads the arguments after `--`, none of which is an option. -/
def readFiles (o : Options) : List String → Except UsageError Options
  | [] => .ok o
  | path :: rest =>
    match o.setFile path with
    | .ok o => o.readFiles rest
    | .error e => .error e

/-- What complete options ask for. -/
def request (o : Options) : Except UsageError Request :=
  match o.source, o.file with
  | some _, some _ => .error .conflict
  | some source, none => .ok (.evaluate source)
  | none, some path => .ok (if o.watch then .watchFile path else .runFile path)
  | none, none => if o.watch then .error .missingFile else .ok .interact

/-- Reads arguments; `waiting` is the option whose value is due. -/
def readAll (o : Options) (waiting : Option Setting) :
    List String → Except UsageError (Request × Options)
  | [] =>
    match waiting with
    | some s => .error (.missingValue s.name)
    | none => o.request.map fun r => (r, o)
  | arg :: args =>
    match arg.toList, waiting with
    | '-' :: _ :: _, some s => .error (.missingValue s.name)
    | ['-', '-'], none =>
      match o.readFiles args with
      | .ok o => o.request.map fun r => (r, o)
      | .error e => .error e
    | '-' :: '-' :: cs, none =>
      match o.readLong cs with
      | .ok (.going o waiting) => o.readAll waiting args
      | .ok (.settled r) => .ok (r, o)
      | .error e => .error e
    | '-' :: c :: cs, none =>
      match o.readLetters (c :: cs) with
      | .ok (.going o waiting) => o.readAll waiting args
      | .ok (.settled r) => .ok (r, o)
      | .error e => .error e
    | _, some s =>
      match o.setValue s arg with
      | .ok o => o.readAll none args
      | .error e => .error e
    | _, none =>
      match o.setFile arg with
      | .ok o => o.readAll none args
      | .error e => .error e

end Options

/-- What a command line asks for, and its options. -/
def Options.read (args : List String) : Except UsageError (Request × Options) :=
  Options.readAll {} none args

end AtomScript
