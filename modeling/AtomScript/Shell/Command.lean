import AtomScript.Text.Blank

/-!
# Commands of the interactive shell

A line that starts with the word of a registered command runs the command on the rest of the line;
any other line is a program text.  The word is followed by a space or by nothing.  When what follows
reads on as an expression (`reset = 0`, `help == 1`), the line is a program text after all.

Of several commands whose words fit, the one with the longest word counts, and of two with the same
word the one registered first: the registry is kept in this order.
-/

namespace AtomScript

/-- What a line has led to. -/
inductive Response where
  | success
  | message (text : String)
  | exit
  /-- The line is no command. -/
  | notACommand
  | error (text : String)
  /-- A file is to be watched for changes. -/
  | watch (path : String)
  deriving DecidableEq, Inhabited

/-- A command: its word, and what it does with the rest of the line. -/
structure Command (σ : Type) where
  word : String
  run : String → σ → Response × σ

/-- The registered commands, longest words first. -/
abbrev Registry (σ : Type) := List (Command σ)

namespace Registry

variable {σ : Type}

/-- Adds a command after those whose words are not shorter. -/
def register (r : Registry σ) (c : Command σ) : Registry σ :=
  (r ++ [c]).mergeSort fun a b => b.word.utf8ByteSize ≤ a.word.utf8ByteSize

/-- The words of the commands. -/
def words (r : Registry σ) : List String := r.map (·.word)

end Registry

namespace Command

/-- The characters that an expression can go on with after a name. -/
def operatorStarts : List Char :=
  ['=', '+', '-', '*', '%', '<', '>', '!', '(', '[', '{']

/-- The rest of a line goes on with an expression. -/
def continuesExpression (rest : String) : Bool :=
  (rest.toList.head?.any fun c => operatorStarts.contains c) ||
    Text.firstWord rest == "and" || Text.firstWord rest == "or"

/-- What follows the word on a line that starts with it. -/
def rest? (word line : List Char) : Option (List Char) :=
  if line = word then some []
  else if (word ++ [' ']).isPrefixOf line then some (line.drop word.length)
  else none

variable {σ : Type}

/-- The arguments that a line gives to the command, if it starts with its word. -/
def arguments? (c : Command σ) (line : String) : Option String :=
  (rest? c.word.toList line.toList).map fun cs => Text.trim (String.ofList cs)

end Command

/-- Runs the command that a line starts with. -/
def Registry.execute {σ : Type} (r : Registry σ) (line : String) (s : σ) : Response × σ :=
  match r.findSome? fun c => (c.arguments? line).map fun args => (c, args) with
  | none => (.notACommand, s)
  | some (c, args) => if Command.continuesExpression args then (.notACommand, s) else c.run args s

end AtomScript
