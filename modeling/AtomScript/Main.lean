import AtomScript.Shell.Clock
import AtomScript.Shell.FileEvent
import AtomScript.Shell.Invocation
import Std.Time.DateTime.Timestamp

/-!
# The command line

The outer layer of the program: it reads arguments, environment, files and lines, hands them to the
library, and writes what the library answers.  A watched file is looked at from time to time, and
before each line that is read.
-/

namespace AtomScript.Terminal

/-- The bytes of a file, if it can be read. -/
def fileBytes (path : String) : IO (Option ByteArray) := do
  try return some (← IO.FS.readBinFile path) catch _ => return none

/-- The fuel for each text; no run uses it up. -/
def fuel : Nat := Nat.pow 2 60

/-- The environment variables that the program looks at. -/
def settings : IO (String → Option String) := do
  let names := [Limit.variableName, "CLICOLOR_FORCE", "NO_COLOR", "CLICOLOR"]
  let found ← names.mapM fun name => return (name, ← IO.getEnv name)
  return fun name => (found.lookup name).join

/-- The world as it is now, as far as the given files go. -/
def world (setting : String → Option String) (colors : Bool)
    (files : List (String × Option ByteArray)) : IO Host := do
  let now ← Std.Time.Timestamp.now
  let bytes := fun path => (files.lookup path).join
  return {
    fileText := fun path => (bytes path).bind String.fromUTF8?
    watchFile := fun path =>
      if (bytes path).isSome then .ok ()
      else .error ("No path was found. about [" ++ Text.quoted path ++ "]")
    setting := setting
    clock := clockText now.toSecondsSinceUnixEpoch.val.toNat
    colors := colors
    fuel := fuel }

def writeLines (stream : IO.FS.Stream) (lines : List String) : IO Unit := do
  lines.forM fun line => stream.putStr (line ++ "\n")
  stream.flush

/-- What has happened to a file, judged by its bytes before and after. -/
def change? (before after : Option ByteArray) : Option FileEvent :=
  match before, after with
  | none, some _ => some .create
  | some _, none => some .remove
  | some a, some b => if a.data = b.data then none else some .modify
  | none, none => none

/-- A watched file: its path and its bytes when it was last looked at. -/
abbrev Watched := String × Option ByteArray

/-- Looks at a watched file, and runs it again if it has changed; `report` writes the error. -/
def refresh (setting : String → Option String) (colors : Bool) (report : String → IO Unit)
    (s : Session) (watched : Watched) : IO (Session × Watched) := do
  let (path, before) := watched
  let after ← fileBytes path
  if (change? before after).any FileEvent.reloads then
    let host ← world setting colors [(path, after)]
    let (lines, error, s) := Invocation.reload host s path
    writeLines (← IO.getStdout) lines
    if let some message := error then report message
    return (s, (path, after))
  else
    return (s, (path, after))

/-- Keeps looking at a file. -/
partial def watchLoop (setting : String → Option String) (colors : Bool) (s : Session)
    (watched : Watched) : IO Unit := do
  IO.sleep 200
  let (s, watched) ← refresh setting colors (fun e => do writeLines (← IO.getStderr) [e]) s watched
  watchLoop setting colors s watched

/-- Reads and handles lines until the input or the user ends the loop; `n` counts the lines. -/
partial def interactLoop (setting : String → Option String) (colors terminal : Bool) (n : Nat)
    (sh : Shell) (watched : Option Watched) : IO Unit := do
  let out ← IO.getStdout
  if terminal then
    out.putStr (Shell.prompt colors n)
    out.flush
  let line ← (← IO.getStdin).getLine
  if line.isEmpty then
    writeLines out [Shell.goodbye colors]
    return
  let (sh, watched) ← match watched with
    | none => pure (sh, none)
    | some w => do
      let (session, w) ← refresh setting colors (fun e => writeLines out [e]) sh.session w
      pure ({ sh with session := session }, some w)
  let target ← match (Shell.registry.execute (Text.trim line) sh).1 with
    | .watch path => do pure (some (path, ← fileBytes path))
    | _ => pure none
  let host ← world setting colors target.toList
  let (lines, goesOn, sh) := sh.interact host line
  writeLines out lines
  let watched := match target with
    | some (path, some bytes) => some (path, some bytes)
    | some (_, none) => none
    | none => watched
  if goesOn then
    interactLoop setting colors terminal (if (Text.trim line).isEmpty then n else n + 1) sh watched

/-- Runs the program on its arguments. -/
def run (args : List String) : IO UInt32 := do
  let setting ← settings
  let colors := Style.wanted setting (← (← IO.getStdout).isTty)
  match Options.read args with
  | .ok (.interact, options) =>
    let limit := Limit.choose (setting Limit.variableName) options.limit
    writeLines (← IO.getStdout) (Shell.banner colors)
    interactLoop setting colors (← (← IO.getStdin).isTty) 1 ⟨.new limit, colors⟩ none
    return 0
  | request =>
    let path? := match request with
      | .ok (.runFile path, _) | .ok (.watchFile path, _) => some path
      | _ => none
    let files ← path?.toList.mapM fun path => return (path, ← fileBytes path)
    let host ← world setting colors files
    let result := Invocation.run host args []
    writeLines (← IO.getStdout) result.out
    writeLines (← IO.getStderr) result.err
    match request, files with
    | .ok (.watchFile path, options), [(_, some bytes)] =>
      let limit := Limit.choose (setting Limit.variableName) options.limit
      let (_, session) := (Session.new limit).runFile host path
      watchLoop setting colors session.takeOutput.2 (path, some bytes)
      return 0
    | _, _ => return UInt32.ofNat result.code

end AtomScript.Terminal

/-- The program. -/
def main (args : List String) : IO UInt32 :=
  AtomScript.Terminal.run args
