import AtomScript.Session
import AtomScript.Text.Search

/-!
# Coloured text

A style is a list of terminal codes.  Styled text starts with its codes and ends with a reset; a
reset inside the text is followed by the codes again, so that the style goes on after it.
-/

namespace AtomScript

/-- Terminal codes. -/
structure Style where
  codes : List Nat
  deriving DecidableEq, Inhabited

namespace Style

def bold : Style := ⟨[1]⟩
def dimmed : Style := ⟨[2]⟩
def red : Style := ⟨[31]⟩
def green : Style := ⟨[32]⟩
def yellow : Style := ⟨[33]⟩
def magenta : Style := ⟨[35]⟩
def cyan : Style := ⟨[36]⟩
def brightRed : Style := ⟨[91]⟩
def brightGreen : Style := ⟨[92]⟩
def brightYellow : Style := ⟨[93]⟩
def brightBlue : Style := ⟨[94]⟩
def brightMagenta : Style := ⟨[95]⟩
def brightCyan : Style := ⟨[96]⟩

/-- The style in bold. -/
def inBold (s : Style) : Style := ⟨1 :: s.codes⟩

/-- The sequence that starts the style. -/
def opening (s : Style) : String :=
  "\x1b[" ++ ";".intercalate (s.codes.map toString) ++ "m"

/-- The sequence that ends every style. -/
def closing : String := "\x1b[0m"

/-- The text in the style, if colours are wanted. -/
def paint (s : Style) (colors : Bool) (text : String) : String :=
  if colors then
    s.opening ++ Text.substitute text closing (closing ++ s.opening) ++ closing
  else text

/-- The style that values of a kind are shown in; aggregates have none. -/
def ofKind? : Kind → Option Style
  | .number => some brightCyan
  | .string => some green
  | .atom => some magenta
  | .boolean | .null => some yellow
  | .function | .lambda | .native | .library => some brightBlue
  | .tuple | .list | .map => none

/-- Colours are wanted: forced by one environment variable, forbidden by another, and otherwise a
matter of whether the output is a terminal. -/
def wanted (setting : String → Option String) (terminal : Bool) : Bool :=
  if (setting "CLICOLOR_FORCE").any (· != "0") then true
  else if (setting "NO_COLOR").isSome then false
  else terminal && (setting "CLICOLOR").all (· != "0")

end Style

/-- The text of a value in the colour of its kind. -/
def Session.show (s : Session) (colors : Bool) (v : Value) : String :=
  match Style.ofKind? v.kind with
  | some style => style.paint colors (s.inspect v)
  | none => s.inspect v

/-- An error report: a heading and the message. -/
def errorReport (colors : Bool) (message : String) : String :=
  Style.brightRed.inBold.paint colors "Error:" ++ " " ++ Style.red.paint colors message

end AtomScript
