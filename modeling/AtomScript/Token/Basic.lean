/-!
# Tokens

A token is a kind together with the text it covers and the position where it starts.  Positions are
counted from one, columns in characters.
-/

namespace AtomScript

/-- A place in a source text. -/
structure Position where
  line : Nat
  column : Nat
  deriving DecidableEq, Inhabited, Repr

namespace Position

/-- Where every source text starts. -/
def start : Position := ⟨1, 1⟩

/-- The place of an error that belongs to no place of the text. -/
def nowhere : Position := ⟨0, 0⟩

/-- The position after one character. -/
def advance (p : Position) (c : Char) : Position :=
  if c = '\n' then ⟨p.line + 1, 1⟩ else ⟨p.line, p.column + 1⟩

/-- The position after a stretch of text. -/
def advanceBy (p : Position) (cs : List Char) : Position :=
  cs.foldl advance p

@[simp]
theorem advanceBy_nil (p : Position) : p.advanceBy [] = p := rfl

@[simp]
theorem advanceBy_cons (p : Position) (c : Char) (cs : List Char) :
    p.advanceBy (c :: cs) = (p.advance c).advanceBy cs := rfl

@[simp]
theorem advanceBy_append (p : Position) (cs ds : List Char) :
    p.advanceBy (cs ++ ds) = (p.advanceBy cs).advanceBy ds := by
  simp [advanceBy]

def text (p : Position) : String :=
  s!"line {p.line}, column {p.column}"

end Position

/-- The reserved words. -/
inductive Keyword where
  | ifWord | elifWord | elseWord | doWord | endWord
  | andWord | orWord | notWord
  | defWord | returnWord | whileWord | fnWord | letWord
  | breakWord | continueWord
  deriving DecidableEq, Inhabited, Repr

namespace Keyword

/-- Every reserved word. -/
def all : List Keyword :=
  [ifWord, elifWord, elseWord, doWord, endWord, andWord, orWord, notWord, defWord, returnWord,
   whileWord, fnWord, letWord, breakWord, continueWord]

/-- How the word is written. -/
def spelling : Keyword → String
  | ifWord => "if" | elifWord => "elif" | elseWord => "else" | doWord => "do" | endWord => "end"
  | andWord => "and" | orWord => "or" | notWord => "not" | defWord => "def"
  | returnWord => "return" | whileWord => "while" | fnWord => "fn" | letWord => "let"
  | breakWord => "break" | continueWord => "continue"

/-- The name of the word's kind in messages. -/
def name : Keyword → String
  | ifWord => "If" | elifWord => "Elif" | elseWord => "Else" | doWord => "Do" | endWord => "End"
  | andWord => "And" | orWord => "Or" | notWord => "Not" | defWord => "Def"
  | returnWord => "Return" | whileWord => "While" | fnWord => "Fn" | letWord => "Let"
  | breakWord => "Break" | continueWord => "Continue"

/-- The reserved word spelled by a text. -/
def ofText? (s : String) : Option Keyword :=
  all.find? fun w => w.spelling == s

end Keyword

/-- The kinds of tokens. -/
inductive TokenKind where
  | number | string | atom | identifier
  | openParen | closeParen | openBrace | closeBrace | openBracket | closeBracket | mapOpen
  | comma | dot | colon | semicolon
  /-- One of `+ * / %`, or a minus that directly follows a numeral. -/
  | binaryOperator
  /-- Any other minus. -/
  | minus
  | arrow | fatArrow | assign
  | equal | notEqual | lessThan | greaterThan | lessThanOrEqual | greaterThanOrEqual
  | keyword (word : Keyword)
  | eof
  deriving DecidableEq, Inhabited, Repr

namespace TokenKind

/-- The name of a kind in messages. -/
def name : TokenKind → String
  | number => "Number" | string => "String" | atom => "Atom" | identifier => "Identifier"
  | openParen => "OpenParen" | closeParen => "CloseParen"
  | openBrace => "OpenBrace" | closeBrace => "CloseBrace"
  | openBracket => "OpenBracket" | closeBracket => "CloseBracket" | mapOpen => "MapOpen"
  | comma => "Comma" | dot => "Dot" | colon => "Colon" | semicolon => "Semicolon"
  | binaryOperator => "BinaryOperator" | minus => "Minus"
  | arrow => "Arrow" | fatArrow => "FatArrow" | assign => "Match"
  | equal => "Equal" | notEqual => "NotEqual" | lessThan => "LessThan"
  | greaterThan => "GreaterThan" | lessThanOrEqual => "LessThanOrEqual"
  | greaterThanOrEqual => "GreaterThanOrEqual"
  | keyword word => word.name
  | eof => "Eof"

/-- The kinds of the comparison operators. -/
def isRelational : TokenKind → Bool
  | equal | notEqual | lessThan | greaterThan | lessThanOrEqual | greaterThanOrEqual => true
  | _ => false

end TokenKind

/-- A token of a source text. -/
structure Token where
  kind : TokenKind
  /-- The text covered; for a string what stands between the quotes, as written. -/
  text : String
  position : Position
  deriving DecidableEq, Inhabited, Repr

namespace Token

/-- The token that ends every source text. -/
def endOfInput (p : Position) : Token :=
  ⟨.eof, "EndOfFile", p⟩

/-- The token as messages show it. -/
def describe (t : Token) : String :=
  s!"{t.kind.name}('{t.text}')"

end Token

end AtomScript
