import AtomScript.Token.Basic
import AtomScript.Value
import AtomScript.Number.Printer

/-!
# Errors

Lexer, parser, scopes, evaluation and library all fail with members of one type, `Error`: nothing in
the type itself keeps one of them from raising the errors of another.  An unexpected token is
reported with what the grammar wanted at that place (`Expectation`); where a message shows a value,
the error holds the text that the value had at that moment.
-/

namespace AtomScript

/-- What the grammar wants at a place. -/
inductive Expectation where
  | expression
  | blockEnd
  | doAfterIf | doAfterElif | endOfIf
  | doAfterWhile | endOfWhile
  | functionName | openParameters | parameter | closeParameters | doBeforeBody | endOfFunction
  | letName | letEquals
  | memberName | closeIndex
  | closeArguments
  | closeGroup | closeTuple | closeList
  | keyArrow | closeMap
  | lambdaArrow | endOfLambda
  deriving DecidableEq, Inhabited, Repr

namespace Expectation

/-- The complaint when something else is found. -/
def complaint : Expectation → String
  | expression => "Unexpected token found during parsing"
  | blockEnd => "Unexpected end of input inside a block"
  | doAfterIf => "Expected 'do' after the if condition"
  | doAfterElif => "Expected 'do' after the elif condition"
  | endOfIf => "Expected 'end' to close the if statement"
  | doAfterWhile => "Expected 'do' after the while condition"
  | endOfWhile => "Expected 'end' to close the while loop"
  | functionName => "Expected a function name after 'def'"
  | openParameters => "Expected '(' after the function name"
  | parameter => "Expected a parameter name"
  | closeParameters => "Expected ')' after the parameter list"
  | doBeforeBody => "Expected 'do' before the function body"
  | endOfFunction => "Expected 'end' to close the function body"
  | letName => "Expected identifier after 'let'"
  | letEquals => "Expected '=' after the let binding name"
  | memberName => "Expected a member name after '.'"
  | closeIndex => "Expected ']' after the computed member"
  | closeArguments => "Expected ')' after the argument list"
  | closeGroup => "Unexpected token found inside the parenthesised expression"
  | closeTuple => "Expected '\x7d' to close the tuple"
  | closeList => "Expected ']' to close the list"
  | keyArrow => "Expected '=>' after the map key"
  | closeMap => "Expected '\x7d' to close the map"
  | lambdaArrow => "Expected '->' after the parameters"
  | endOfLambda => "Expected 'end' to close the anonymous function"

/-- The one kind of token that is wanted, where it is one. -/
def kind? : Expectation → Option TokenKind
  | expression => none
  | blockEnd | endOfIf | endOfWhile | endOfFunction | endOfLambda => some (.keyword .endWord)
  | doAfterIf | doAfterElif | doAfterWhile | doBeforeBody => some (.keyword .doWord)
  | functionName | parameter | letName | memberName => some .identifier
  | openParameters => some .openParen
  | closeParameters | closeArguments | closeGroup => some .closeParen
  | letEquals => some .assign
  | closeIndex | closeList => some .closeBracket
  | closeTuple | closeMap => some .closeBrace
  | keyArrow => some .fatArrow
  | lambdaArrow => some .arrow

/-- What is wanted, in words. -/
def wanted (e : Expectation) : String :=
  match e.kind? with
  | some kind => kind.name
  | none => "an expression"

end Expectation

/-- The ways in which reading and running a text fail. -/
inductive Error where
  -- the text as a row of tokens
  | unrecognized (c : Char) (position : Position)
  | unterminatedString (opening : Position)
  -- the tokens as a program
  | unexpected (wanted : Expectation) (found : Token)
  | unknownOperator (symbol : String) (position : Position)
  /-- A marker in a string that is never closed. -/
  | unclosedMarker (position : Position)
  /-- A marker in a string that holds anything but one expression. -/
  | markerNotExpression (marker : String) (position : Position)
  /-- A text that should be one expression and is not. -/
  | notOneExpression
  -- names
  | undefined (name : String)
  | constant (name : String)
  | unknownMember (library : Library) (member : String)
  -- kinds
  | conditionNotBoolean (construct : String) (kind : Kind) (text : String)
  | memberOfNonModule (property : String) (kind : Kind) (text : String)
  | memberNotName (library : Library) (property : String)
  | selfContainingKey (kind : Kind)
  | argumentFormat (f : Native) (given : List Kind)
  | notPair (f : Native) (text : String)
  | notNumbers (f : Native) (text : String)
  -- calls
  | arity (callee : String) (expected got : Nat)
  | notCallable (text : String) (kind : Kind)
  | stackOverflow (limit : Nat)
  -- patterns
  | patternKind (pattern : SequenceKind) (kind : Kind) (text : String)
  | patternLength (pattern : String) (expected : Nat) (text : String) (got : Nat)
  | elementKind (expectedText : String) (expected : Kind) (foundText : String) (found : Kind)
  | invalidPattern (pattern : String)
  -- positions and keys
  | outOfRange (f : Native) (index : Number) (size : Nat)
  | emptyPop
  | missingKey (f : Native) (key : String)
  -- control flow
  | returnOutsideFunction
  | breakOutsideLoop
  | continueOutsideLoop
  | loopControlInFunction (name : String)
  deriving DecidableEq, Inhabited

namespace Error

/-- The kind of the error, as messages name it. -/
def category : Error → String
  | unrecognized .. | unterminatedString .. => "LexError"
  | unexpected .. | unknownOperator .. | unclosedMarker .. | markerNotExpression ..
  | notOneExpression => "ParseError"
  | undefined _ | unknownMember .. => "NameError"
  | constant _ => "ConstAssignmentError"
  | conditionNotBoolean .. | memberOfNonModule .. | memberNotName .. | selfContainingKey ..
  | argumentFormat .. | notPair .. | notNumbers .. => "TypeError"
  | arity .. => "ArityError"
  | notCallable .. => "NotCallable"
  | stackOverflow .. => "StackOverflow"
  | patternKind .. | patternLength .. | elementKind .. | invalidPattern .. => "MatchError"
  | outOfRange .. | emptyPop | missingKey .. => "IndexError"
  | returnOutsideFunction | breakOutsideLoop | continueOutsideLoop
  | loopControlInFunction .. => "UsageError"

/-- The error is of the kinds that are raised before anything is evaluated. -/
def isSyntaxError (e : Error) : Bool :=
  e.category == "LexError" || e.category == "ParseError"

/-- What went wrong, without the category. -/
def detail : Error → String
  | unrecognized c p => s!"unrecognized character '{c}' at {p.text}"
  | unterminatedString p => s!"unterminated string literal starting at {p.text}"
  | unexpected wanted found =>
    s!"{wanted.complaint} at {found.position.text}, found {found.describe}, " ++
      s!"expected {wanted.wanted}"
  | unknownOperator symbol p => s!"Unknown operator '{symbol}' at {p.text}"
  | unclosedMarker p => s!"Unterminated interpolation '#\x7b' in string literal at {p.text}"
  | markerNotExpression marker p =>
    s!"Interpolation '{marker}' must contain a single expression at {p.text}"
  | notOneExpression => s!"Expected a single expression at {Position.nowhere.text}"
  | undefined name => s!"cannot resolve variable '{name}' as it doesn't exist"
  | constant name => s!"cannot reassign to '{name}' as it was declared as a constant"
  | unknownMember library member => s!"module {library.name} has no function '{member}'"
  | conditionNotBoolean construct kind text =>
    s!"{construct} condition must be a boolean, got {kind.name} ({text})"
  | memberOfNonModule property kind text =>
    s!"cannot access member {property} of {kind.name} {text}"
  | memberNotName library property =>
    s!"module {library.name} members must be accessed by name, got {property}"
  | selfContainingKey kind =>
    s!"a {kind.name} that contains itself cannot be used as a map key"
  | argumentFormat f given =>
    let kinds := ", ".intercalate (given.map Kind.name)
    s!"Argument format of {f.signature} {f.format.2}, got ({kinds})"
  | notPair f text =>
    s!"{f.signature} callback must return a \x7bkey, value\x7d tuple for maps, got {text}"
  | notNumbers f text => s!"{f.signature} expects a list of numbers, found {text}"
  | arity callee expected got => s!"{callee} expects {expected} argument(s), got {got}"
  | notCallable text kind => s!"{text} ({kind.name}) is not a function"
  | stackOverflow limit => s!"maximum call depth of {limit} exceeded"
  | patternKind pattern kind text =>
    s!"cannot match {kind.name} {text} against a {pattern.noun} pattern"
  | patternLength pattern expected text got =>
    s!"pattern {pattern} has {expected} element(s) but the value {text} has {got}"
  | elementKind expectedText expected foundText found =>
    s!"expected {expectedText} ({expected.name}) but found {foundText} ({found.name})"
  | invalidPattern pattern =>
    s!"invalid pattern {pattern}, expected an identifier, tuple or list"
  | outOfRange f index size =>
    s!"{f.signature} index {index.inspect} is out of range for size {size}"
  | emptyPop => "List.pop/1 cannot pop from an empty list"
  | missingKey f key => s!"{f.signature} map does not contain the key {key}"
  | returnOutsideFunction => "'return' used outside of a function"
  | breakOutsideLoop => "'break' used outside of a loop"
  | continueOutsideLoop => "'continue' used outside of a loop"
  | loopControlInFunction name =>
    s!"'break' or 'continue' used outside of a loop in function '{name}'"

def message (e : Error) : String :=
  e.category ++ ": " ++ e.detail

end Error

end AtomScript
