import AtomScript.Program.Basic
import AtomScript.Program.Template
import AtomScript.Token.Lexer
import AtomScript.Number.Reader

/-!
# Reading programs

Recursive descent over the tokens of a text, with one token of lookahead (two for `name:` in a map).
Binding strength, weakest first: `=` and `let`, `or`, `and`, `not`, comparisons, `+ -`, `* / %`, the
leading minus, calls and members, primaries.  The five levels of left-associative operators are one
function, `Parser.operators`, indexed by its `Level`.

A string literal may hold expressions, which are read as programs of their own (`Parser.holes`); so
reading a literal and reading a program call each other.

Every function takes a budget, the number of nested calls it may still make.  Running out of it is
an ending of its own (`Parsed.exhausted`), apart from success and refusal.  A token costs at most
a fixed number of nested calls, and what a marker encloses is shorter than the literal around it,
so `Program.parse` starts with a budget proportional to the length of the text.

The host has a stack, too.  Statements, expressions, `not` and the leading minus see to it that
there is enough of it before they are read, and never run over.  The right side of `=` is read by a
call that does not look at it (`Parser.unchecked`): a chain of bindings needs as much of the stack
as it is long, and where the host has less (`HostStack.room`) the reading ends in
`Parsed.overflowed`, which is neither a program nor a refusal.  `Program.read` reads on a given
host, `Program.parse` on one whose stack has no bound.
-/

namespace AtomScript

/-- How reading ends. -/
inductive Parsed (α : Type) where
  /-- The result, and the tokens that are left. -/
  | done (a : α) (rest : List Token)
  | refused (e : Error)
  /-- The budget was spent. -/
  | exhausted
  /-- The host's stack ran over. -/
  | overflowed
  deriving Inhabited

/-- The stack of the host that a text is read on. -/
class HostStack where
  /-- How many unchecked calls may be nested in a checked one, if there is a bound. -/
  room : Option Nat

/-- A stack without a bound. -/
instance HostStack.boundless : HostStack := ⟨none⟩

/-- A reader of tokens: it takes some from the front, or fails. -/
def Parser (α : Type) : Type := List Token → Parsed α

namespace Parser

@[always_inline, inline]
protected def pure {α : Type} (a : α) : Parser α := fun ts => .done a ts

@[always_inline, inline]
protected def bind {α β : Type} (x : Parser α) (f : α → Parser β) : Parser β := fun ts =>
  match x ts with
  | .done a rest => f a rest
  | .refused e => .refused e
  | .exhausted => .exhausted
  | .overflowed => .overflowed

@[always_inline]
instance : Monad Parser where
  pure := Parser.pure
  bind := Parser.bind

/-- Refuses the text. -/
@[always_inline, inline]
def fail {α : Type} (e : Error) : Parser α := fun _ => .refused e

/-- Stops because the budget is spent. -/
@[always_inline, inline]
def exhausted {α : Type} : Parser α := fun _ => .exhausted

/-- Stops because the host's stack ran over. -/
@[always_inline, inline]
def overflowed {α : Type} : Parser α := fun _ => .overflowed

/-- A call that does not look at the host's stack first, of which `room` more calls are left. -/
@[always_inline, inline]
def unchecked {α : Type} (room : Option Nat) (x : Option Nat → Parser α) : Parser α :=
  match room with
  | none => x none
  | some 0 => overflowed
  | some (k + 1) => x (some k)

/-- Reads tokens of its own, and leaves those at hand alone. -/
@[always_inline, inline]
def within {α : Type} (own : List Token) (x : Parser α) : Parser α := fun ts =>
  match x own with
  | .done a _ => .done a ts
  | .refused e => .refused e
  | .exhausted => .exhausted
  | .overflowed => .overflowed

/-! ### The front of the token list -/

/-- The token at the front. -/
def peek : Parser Token := fun ts =>
  .done (ts.headD (.endOfInput .nowhere)) ts

/-- The kind of the token at the front. -/
def peekKind : Parser TokenKind := do
  return (← peek).kind

/-- The kind of the token after the front one. -/
def peekSecondKind : Parser TokenKind := fun ts =>
  .done (ts.tail.headD (.endOfInput .nowhere)).kind ts

/-- Takes the token at the front. -/
def advance : Parser Token := fun ts =>
  .done (ts.headD (.endOfInput .nowhere)) ts.tail

/-- Fails at the front token. -/
def refuse {α : Type} (wanted : Expectation) : Parser α := do
  fail (.unexpected wanted (← peek))

/-- Takes the front token if it has the given kind. -/
def accept (kind : TokenKind) : Parser Bool := do
  if (← peekKind) = kind then
    let _ ← advance
    return true
  else
    return false

/-- Takes the one token that the grammar allows here. -/
def expect (wanted : Expectation) : Parser Token := do
  if some (← peekKind) = wanted.kind? then advance else refuse wanted

/-- Passes over semicolons. -/
def skipSeparators : Parser Unit := fun ts =>
  .done () (ts.dropWhile (·.kind == .semicolon))

/-! ### Parameters -/

/-- Names separated by commas, up to the closing kind, which is not taken.  A final comma is
allowed. -/
def parameters (close : TokenKind) : Parser (List String)
  | [] => .refused (.unexpected .parameter (.endOfInput .nowhere))
  | t :: ts =>
    if t.kind = close then .done [] (t :: ts)
    else if t.kind = .identifier then
      match ts with
      | [] => .done [t.text] []
      | u :: us =>
        if u.kind = .comma then
          match parameters close us with
          | .done names rest => .done (t.text :: names) rest
          | .refused e => .refused e
          | .exhausted => .exhausted
          | .overflowed => .overflowed
        else .done [t.text] (u :: us)
    else .refused (.unexpected .parameter t)

/-! ### Operators -/

/-- The levels of left-associative binary operators, weakest first. -/
inductive Level where
  | or | and | comparison | sum | product
  deriving DecidableEq, Inhabited, Repr

/-- The token is an operator of the level. -/
def Level.holds (level : Level) (t : Token) : Bool :=
  match level with
  | or => t.kind == .keyword .orWord
  | and => t.kind == .keyword .andWord
  | comparison => t.kind.isRelational
  | sum => t.kind == .minus || (t.kind == .binaryOperator && (t.text == "+" || t.text == "-"))
  | product =>
    t.kind == .binaryOperator && (t.text == "*" || t.text == "/" || t.text == "%")

/-- The operator that a token writes. -/
def operator (t : Token) : Parser BinaryOp :=
  match BinaryOp.ofSymbol? t.text with
  | some op => return op
  | none => fail (.unknownOperator t.text t.position)

/-- The statement `return` stands alone before these. -/
def endsReturn : TokenKind → Bool
  | .keyword .endWord | .keyword .elifWord | .keyword .elseWord | .semicolon | .eof => true
  | _ => false

/-- What ends a block: `end`, and in a conditional also `elif` and `else`. -/
def endsBlock (inConditional : Bool) : TokenKind → Bool
  | .keyword .endWord => true
  | .keyword .elifWord | .keyword .elseWord => inConditional
  | _ => false

/-! ### The grammar -/

variable [HostStack]

mutual

/-- One statement. -/
def statement : Nat → Parser Stmt
  | 0 => exhausted
  | n + 1 => do
    match ← peekKind with
    | .keyword .ifWord =>
      let _ ← advance
      let condition ← expression n
      let _ ← expect .doAfterIf
      let body ← block n true
      let rest ← clauses n
      return .conditional (.mk (some condition) body false :: rest)
    | .keyword .defWord =>
      let _ ← advance
      let name ← expect .functionName
      let _ ← expect .openParameters
      let params ← parameters .closeParen
      let _ ← expect .closeParameters
      let _ ← expect .doBeforeBody
      let body ← block n false
      let _ ← expect .endOfFunction
      return .define name.text params body
    | .keyword .returnWord =>
      let _ ← advance
      if endsReturn (← peekKind) then return .returning none
      else return .returning (some (← expression n))
    | .keyword .whileWord =>
      let _ ← advance
      let condition ← expression n
      let _ ← expect .doAfterWhile
      let body ← block n false
      let _ ← expect .endOfWhile
      return .whileLoop condition body
    | .keyword .breakWord =>
      let _ ← advance
      return .breaking
    | .keyword .continueWord =>
      let _ ← advance
      return .continuing
    | _ => return .expression (← expression n)

/-- The statements of a block, up to what ends it, which is not taken. -/
def block : Nat → Bool → Parser (List Stmt)
  | 0, _ => exhausted
  | n + 1, inConditional => do
    skipSeparators
    let kind ← peekKind
    if endsBlock inConditional kind then return []
    else if kind = .eof then refuse .blockEnd
    else
      let first ← statement n
      let rest ← block n inConditional
      return first :: rest

/-- The clauses after the first one, and the `end` of the conditional. -/
def clauses : Nat → Parser (List Clause)
  | 0 => exhausted
  | n + 1 => do
    if ← accept (.keyword .elifWord) then
      let condition ← expression n
      let _ ← expect .doAfterElif
      let body ← block n true
      let rest ← clauses n
      return .mk (some condition) body false :: rest
    else if ← accept (.keyword .elseWord) then
      let _ ← accept (.keyword .doWord)
      let body ← block n false
      let _ ← expect .endOfIf
      return [.mk none body true]
    else
      let _ ← expect .endOfIf
      return []

/-- A whole expression, with the host's stack at its disposal. -/
def expression : Nat → Parser Expr
  | 0 => exhausted
  | n + 1 => matching n HostStack.room

/-- A binding or an operation. -/
def matching : Nat → Option Nat → Parser Expr
  | 0, _ => exhausted
  | n + 1, room => do
    if (← peekKind) = .keyword .letWord then unchecked room (declaration n)
    else
      let left ← operators n .or
      if ← accept .assign then return .bind left (← unchecked room (matching n))
      else return left

/-- `let name = value`. -/
def declaration : Nat → Option Nat → Parser Expr
  | 0, _ => exhausted
  | n + 1, room => do
    let _ ← advance
    let name ← expect .letName
    let _ ← expect .letEquals
    return .declare name.text (← unchecked room (matching n))

/-- The operations of one level. -/
def operators : Nat → Level → Parser Expr
  | 0, _ => exhausted
  | n + 1, level => do
    let first ← operand n level
    operations n level first

/-- What stands between the operators of a level. -/
def operand : Nat → Level → Parser Expr
  | 0, _ => exhausted
  | n + 1, .or => operators n .and
  | n + 1, .and => negation n
  | n + 1, .comparison => operators n .sum
  | n + 1, .sum => operators n .product
  | n + 1, .product => unary n

/-- Further operators of the level, each with its right operand. -/
def operations : Nat → Level → Expr → Parser Expr
  | 0, _, _ => exhausted
  | n + 1, level, left => do
    if level.holds (← peek) then
      let op ← operator (← advance)
      let right ← operand n level
      operations n level (.binary op left right)
    else return left

/-- `not`, any number of times, before comparisons. -/
def negation : Nat → Parser Expr
  | 0 => exhausted
  | n + 1 => do
    if ← accept (.keyword .notWord) then return .not (← negation n)
    else operators n .comparison

/-- A leading minus, any number of times, before calls and members. -/
def unary : Nat → Parser Expr
  | 0 => exhausted
  | n + 1 => do
    if ← accept .minus then return (← unary n).negated
    else
      let first ← primary n
      suffixes n first

/-- Calls, `.name` and `[…]` after an expression. -/
def suffixes : Nat → Expr → Parser Expr
  | 0, _ => exhausted
  | n + 1, e => do
    if ← accept .openParen then
      let args ← sequence n .closeParen
      let _ ← expect .closeArguments
      suffixes n (.call e args)
    else if ← accept .dot then
      let name ← expect .memberName
      suffixes n (.member e (.identifier name.text) false)
    else if ← accept .openBracket then
      let property ← expression n
      let _ ← expect .closeIndex
      suffixes n (.member e property true)
    else return e

/-- Expressions separated by commas, up to the closing kind, which is not taken.  A final comma is
allowed. -/
def sequence : Nat → TokenKind → Parser (List Expr)
  | 0, _ => exhausted
  | n + 1, close => do
    if (← peekKind) = close then return []
    else
      let first ← expression n
      if ← accept .comma then return first :: (← sequence n close)
      else return [first]

/-- The entries of a map, `key => value` or `name: value`, up to the closing brace, which is not
taken.  A final comma is allowed. -/
def entries : Nat → Parser (List (Expr × Expr))
  | 0 => exhausted
  | n + 1 => do
    if (← peekKind) = .closeBrace then return []
    else
      let key ← mapKey n
      let value ← expression n
      if ← accept .comma then return (key, value) :: (← entries n)
      else return [(key, value)]

/-- The key of a map entry, with what separates it from the value. -/
def mapKey : Nat → Parser Expr
  | 0 => exhausted
  | n + 1 => do
    if (← peekKind) = .identifier ∧ (← peekSecondKind) = .colon then
      let name ← advance
      let _ ← advance
      return .atom name.text
    else
      let key ← expression n
      let _ ← expect .keyArrow
      return key

/-- The expressions that need no context. -/
def primary : Nat → Parser Expr
  | 0 => exhausted
  | n + 1 => do
    match ← peekKind with
    | .identifier => return .identifier (← advance).text
    | .number => return .number (.ofNumeral (← advance).text)
    | .atom => return .atom (String.ofList ((← advance).text.toList.dropWhile (· == ':')))
    | .string =>
      let t ← advance
      match Template.markers? t.text with
      | none => fail (.unclosedMarker t.position)
      | some inners =>
        let (fragments, expressions) ← holes n t.position inners
        return .string (Template.unescape t.text) fragments expressions
    | .openParen =>
      let _ ← advance
      let e ← expression n
      let _ ← expect .closeGroup
      return e
    | .openBrace =>
      let _ ← advance
      let items ← sequence n .closeBrace
      let _ ← expect .closeTuple
      return .tuple items
    | .openBracket =>
      let _ ← advance
      let items ← sequence n .closeBracket
      let _ ← expect .closeList
      return .list items
    | .mapOpen =>
      let _ ← advance
      let es ← entries n
      let _ ← expect .closeMap
      return .map es
    | .keyword .fnWord =>
      let _ ← advance
      let params ←
        if ← accept .openParen then
          let params ← parameters .closeParen
          let _ ← expect .closeParameters
          pure params
        else parameters .arrow
      let _ ← expect .lambdaArrow
      let body ← expression n
      let _ ← expect .endOfLambda
      return .lambda params body
    | _ => refuse .expression

/-- The fragments and the expressions of a string, from what its markers enclose.  Each is a text of
its own, with its own tokens and positions. -/
def holes : Nat → Position → List String → Parser (List String × List Expr)
  | 0, _, _ => exhausted
  | _ + 1, _, [] => return ([], [])
  | n + 1, p, inner :: inners => do
    let ts ← match tokenize (Template.unescape inner) with
      | .ok ts => pure ts
      | .error e => fail e
    match ← within ts (statements n) with
    | [.expression e] =>
      let (fragments, expressions) ← holes n p inners
      return (Template.unescape (Template.markerText inner) :: fragments, e :: expressions)
    | _ => fail (.markerNotExpression (Template.markerText inner) p)

/-- The statements of a whole text. -/
def statements : Nat → Parser (List Stmt)
  | 0 => exhausted
  | n + 1 => do
    skipSeparators
    if (← peekKind) = .eof then return []
    else
      let first ← statement n
      let rest ← statements n
      return first :: rest

end

/-- A budget that no text of the given length uses up. -/
def budget (length : Nat) : Nat :=
  36 * (length + 1)

end Parser

/-- Reads a program on a host. -/
def Program.read [HostStack] (source : String) : Parsed Program :=
  match tokenize source with
  | .error e => .refused e
  | .ok ts => Parser.statements (Parser.budget source.length) ts

/-- Reads a program where the stack has no bound.  The budget suffices for every text, so the last
case does not arise. -/
def Program.parse (source : String) : Except Error Program :=
  match Program.read source with
  | .done p _ => .ok p
  | .refused e => .error e
  | .exhausted | .overflowed => .error (.unexpected .expression (.endOfInput .nowhere))

/-- Reads a text that must be one expression. -/
def Expr.parse (source : String) : Except Error Expr :=
  match Program.parse source with
  | .ok [.expression e] => .ok e
  | .ok _ => .error .notOneExpression
  | .error e => .error e

end AtomScript
