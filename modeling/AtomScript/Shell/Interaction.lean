import AtomScript.Shell.Builtin

/-!
# The interactive loop

Each line is a command or a program text.  What the line printed, and then what it led to, is shown;
`quit` and the end of the input end the loop.
-/

namespace AtomScript

/-- What printed lines look like, when the date and time are as given. -/
def Printed.text (clock : String) : Printed → String
  | .line s => s
  | .now => clock

/-- The world around the program, as far as the program asks about it. -/
structure Host where
  /-- The text of a file, if it can be read. -/
  fileText : String → Option String
  /-- Watches a file, or says why that is impossible. -/
  watchFile : String → Except String Unit
  /-- The value of an environment variable. -/
  setting : String → Option String
  /-- The date and time, as `date` prints it. -/
  clock : String
  /-- Colours are wanted. -/
  colors : Bool
  /-- The fuel for each text that is run. -/
  fuel : Nat

namespace Shell

/-- What a line leads to: the response to a command, or the values of a program text. -/
inductive Reply where
  | response (r : Response)
  | values (vs : List Value)
  | failure (e : Error)
  | exhausted

/-- Handles one line. -/
def handle (fuel : Nat) (line : String) (sh : Shell) : Reply × Shell :=
  match registry.execute line sh with
  | (.notACommand, sh) =>
    match sh.session.runLine fuel line with
    | (.value vs, session) => (.values vs, { sh with session := session })
    | (.error e, session) => (.failure e, { sh with session := session })
    | (.exhausted, session) => (.exhausted, { sh with session := session })
  | (response, sh) => (.response response, sh)

/-- The greeting. -/
def banner (colors : Bool) : List String :=
  let cyan := Style.cyan.paint colors
  [Style.brightCyan.inBold.paint colors "Dex interactive shell",
   "Try: " ++ cyan "\x7ba, b\x7d = \x7b1, 2\x7d" ++ ", " ++
     cyan "Enum.map([1, 2], fn (x) -> x * 2 end)" ++ ", " ++ cyan "\"sum #\x7ba + b\x7d\"",
   "Type '" ++ Style.brightGreen.paint colors "help" ++ "' for more information, '" ++
     Style.brightRed.paint colors "quit" ++ "' or " ++ Style.brightRed.paint colors "Ctrl+C" ++
     " to exit.",
   ""]

/-- What is shown before a line is read from a terminal; `n` counts the lines. -/
def prompt (colors : Bool) (n : Nat) : String :=
  Style.brightMagenta.inBold.paint colors ("dex(" ++ toString n ++ ")>") ++ " "

def goodbye (colors : Bool) : String :=
  Style.brightCyan.paint colors "Goodbye!"

/-- The answer to a `watch` command. -/
def watchReport (host : Host) (path : String) : String :=
  match host.watchFile path with
  | .ok () =>
    Style.brightCyan.paint host.colors "watch" ++ " Watching " ++
      Style.brightGreen.paint host.colors path ++ " for changes..."
  | .error reason =>
    Style.red.paint host.colors "Error:" ++ " Failed to watch " ++ path ++ ": " ++ reason

/-- The lines that show a reply, and whether the loop goes on. -/
def replyLines (host : Host) (sh : Shell) : Reply → List String × Bool
  | .response .success | .response .notACommand => ([], true)
  | .response (.message text) => ([text], true)
  | .response .exit => ([goodbye host.colors], false)
  | .response (.error text) => ([errorReport host.colors text], true)
  | .response (.watch path) => ([watchReport host path], true)
  | .values vs => (vs.map (sh.session.show host.colors), true)
  | .failure e => ([errorReport host.colors e.message], true)
  | .exhausted => ([], false)

/-- Handles one line of input: what is shown, whether the loop goes on, and the shell after it.
Blanks around the line do not count, and a blank line is passed over. -/
def interact (host : Host) (line : String) (sh : Shell) : List String × Bool × Shell :=
  let line := Text.trim line
  if line.isEmpty then ([], true, sh)
  else
    let (reply, sh) := sh.handle host.fuel line
    let (printed, session) := sh.session.takeOutput
    let sh := { sh with session := session }
    let (lines, goesOn) := sh.replyLines host reply
    (printed.map (·.text host.clock) ++ lines, goesOn, sh)

/-- The whole loop over the lines of the input. -/
def interactAll (host : Host) : List String → Shell → List String
  | [], _ => [goodbye host.colors]
  | line :: lines, sh =>
    let (shown, goesOn, sh) := sh.interact host line
    if goesOn then shown ++ interactAll host lines sh else shown

end Shell

end AtomScript
