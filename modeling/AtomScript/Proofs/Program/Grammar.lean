import AtomScript.Program.Parser
import AtomScript.Proofs.Token.Lexeme

/-!
# The grammar

The rules by which the tokens of a text make up a program.  They are stratified by binding strength:
a binding (`=` and `let`) is made of operations of the weakest level, the operands of each level are
the operations of the next stronger one, and so on down to the primaries.

A rule puts the tokens of its parts together in order, so a derivation uses every token of the text
once.  The levels of binary operators lean to the left, bindings and prefixed operators to the
right.  What a marker of a string encloses is a text of its own, cut into tokens of its own.
-/

namespace AtomScript

/-- The operators of each level. -/
def Parser.Level.ops : Parser.Level → List BinaryOp
  | or => [.or]
  | and => [.and]
  | comparison => [.equal, .notEqual, .less, .greater, .lessEqual, .greaterEqual]
  | sum => [.add, .subtract]
  | product => [.multiply, .divide, .modulo]

namespace Grammar

/-- The kinds of tokens that may stand for a binary operator. -/
def operatorKind : TokenKind → Bool
  | .binaryOperator | .minus => true
  | .equal | .notEqual | .lessThan | .greaterThan | .lessThanOrEqual | .greaterThanOrEqual => true
  | .keyword .andWord | .keyword .orWord => true
  | _ => false

/-- The token writes a binary operator of the level. -/
structure Operator (level : Parser.Level) (t : Token) (op : BinaryOp) : Prop where
  kind : operatorKind t.kind = true
  text : t.text = op.symbol
  level : op ∈ level.ops

/-- Names separated by commas, possibly with a comma after the last one. -/
inductive Names : List Token → List String → Prop where
  | nil : Names [] []
  | last {t : Token} : t.kind = .identifier → Names [t] [t.text]
  | cons {t comma : Token} {ts : List Token} {names : List String} : t.kind = .identifier →
    comma.kind = .comma → Names ts names → Names (t :: comma :: ts) (t.text :: names)

mutual

/-- Statements one after another, with any number of semicolons before, between and after them. -/
inductive Statements : List Token → List Stmt → Prop where
  | nil : Statements [] []
  | separator {t : Token} {ts : List Token} {ss : List Stmt} : t.kind = .semicolon →
    Statements ts ss → Statements (t :: ts) ss
  | cons {us ts : List Token} {s : Stmt} {ss : List Stmt} : Statement us s → Statements ts ss →
    Statements (us ++ ts) (s :: ss)

/-- A statement. -/
inductive Statement : List Token → Stmt → Prop where
  | expression {ts : List Token} {e : Expr} : Expression ts e → Statement ts (.expression e)
  /-- `if c do body` and the clauses that follow. -/
  | conditional {ifWord doWord : Token} {cs bs rest : List Token} {c : Expr} {body : List Stmt}
      {clauses : List Clause} :
    ifWord.kind = .keyword .ifWord → Expression cs c → doWord.kind = .keyword .doWord →
    Statements bs body → Clauses rest clauses →
    Statement (ifWord :: (cs ++ doWord :: (bs ++ rest)))
      (.conditional (.mk (some c) body false :: clauses))
  /-- `while c do body end`. -/
  | whileLoop {whileWord doWord endWord : Token} {cs bs : List Token} {c : Expr}
      {body : List Stmt} :
    whileWord.kind = .keyword .whileWord → Expression cs c → doWord.kind = .keyword .doWord →
    Statements bs body → endWord.kind = .keyword .endWord →
    Statement (whileWord :: (cs ++ doWord :: (bs ++ [endWord]))) (.whileLoop c body)
  /-- `def name(params) do body end`. -/
  | define {defWord name opening closing doWord endWord : Token} {ps bs : List Token}
      {params : List String} {body : List Stmt} :
    defWord.kind = .keyword .defWord → name.kind = .identifier → opening.kind = .openParen →
    Names ps params → closing.kind = .closeParen → doWord.kind = .keyword .doWord →
    Statements bs body → endWord.kind = .keyword .endWord →
    Statement (defWord :: name :: opening :: (ps ++ closing :: doWord :: (bs ++ [endWord])))
      (.define name.text params body)
  | returnNothing {returnWord : Token} : returnWord.kind = .keyword .returnWord →
    Statement [returnWord] (.returning none)
  | returnValue {returnWord : Token} {ts : List Token} {e : Expr} :
    returnWord.kind = .keyword .returnWord → Expression ts e →
    Statement (returnWord :: ts) (.returning (some e))
  | breaking {breakWord : Token} : breakWord.kind = .keyword .breakWord →
    Statement [breakWord] .breaking
  | continuing {continueWord : Token} : continueWord.kind = .keyword .continueWord →
    Statement [continueWord] .continuing

/-- The clauses after the first one: any number of `elif`, at most one `else`, and the `end`. -/
inductive Clauses : List Token → List Clause → Prop where
  | finish {endWord : Token} : endWord.kind = .keyword .endWord → Clauses [endWord] []
  | otherwise {elseWord endWord : Token} {bs : List Token} {body : List Stmt} :
    elseWord.kind = .keyword .elseWord → Statements bs body → endWord.kind = .keyword .endWord →
    Clauses (elseWord :: (bs ++ [endWord])) [.mk none body true]
  /-- `else` may be followed by `do`. -/
  | otherwiseDo {elseWord doWord endWord : Token} {bs : List Token} {body : List Stmt} :
    elseWord.kind = .keyword .elseWord → doWord.kind = .keyword .doWord → Statements bs body →
    endWord.kind = .keyword .endWord →
    Clauses (elseWord :: doWord :: (bs ++ [endWord])) [.mk none body true]
  | elif {elifWord doWord : Token} {cs bs rest : List Token} {c : Expr} {body : List Stmt}
      {clauses : List Clause} :
    elifWord.kind = .keyword .elifWord → Expression cs c → doWord.kind = .keyword .doWord →
    Statements bs body → Clauses rest clauses →
    Clauses (elifWord :: (cs ++ doWord :: (bs ++ rest))) (.mk (some c) body false :: clauses)

/-- A whole expression: a binding, or an operation of the weakest level. -/
inductive Expression : List Token → Expr → Prop where
  /-- `let name = value`. -/
  | letting {letWord name equals : Token} {ts : List Token} {e : Expr} :
    letWord.kind = .keyword .letWord → name.kind = .identifier → equals.kind = .assign →
    Expression ts e → Expression (letWord :: name :: equals :: ts) (.declare name.text e)
  /-- `pattern = value`; the value may be a binding again. -/
  | binding {equals : Token} {us ts : List Token} {pattern e : Expr} :
    Operation .or us pattern → equals.kind = .assign → Expression ts e →
    Expression (us ++ equals :: ts) (.bind pattern e)
  | operation {ts : List Token} {e : Expr} : Operation .or ts e → Expression ts e

/-- Operands of a level and operators between them, grouped to the left. -/
inductive Operation : Parser.Level → List Token → Expr → Prop where
  | operand {level : Parser.Level} {ts : List Token} {e : Expr} : Operand level ts e →
    Operation level ts e
  | apply {level : Parser.Level} {t : Token} {us ts : List Token} {op : BinaryOp}
      {left right : Expr} :
    Operation level us left → Operator level t op → Operand level ts right →
    Operation level (us ++ t :: ts) (.binary op left right)

/-- The operands of each level: what binds more strongly. -/
inductive Operand : Parser.Level → List Token → Expr → Prop where
  | or {ts : List Token} {e : Expr} : Operation .and ts e → Operand .or ts e
  | and {ts : List Token} {e : Expr} : Negation ts e → Operand .and ts e
  | comparison {ts : List Token} {e : Expr} : Operation .sum ts e → Operand .comparison ts e
  | sum {ts : List Token} {e : Expr} : Operation .product ts e → Operand .sum ts e
  | product {ts : List Token} {e : Expr} : Unary ts e → Operand .product ts e

/-- `not`, any number of times, before comparisons. -/
inductive Negation : List Token → Expr → Prop where
  | not {notWord : Token} {ts : List Token} {e : Expr} : notWord.kind = .keyword .notWord →
    Negation ts e → Negation (notWord :: ts) (.not e)
  | operation {ts : List Token} {e : Expr} : Operation .comparison ts e → Negation ts e

/-- A minus, any number of times, before calls and members. -/
inductive Unary : List Token → Expr → Prop where
  /-- Before a numeral the minus becomes its sign. -/
  | sign {minus : Token} {ts : List Token} {x : Number} : minus.kind = .minus →
    Unary ts (.number x) → Unary (minus :: ts) (.number x.neg)
  /-- Before anything else it subtracts from zero. -/
  | subtract {minus : Token} {ts : List Token} {e : Expr} : minus.kind = .minus →
    Unary ts e → (∀ x, e ≠ .number x) →
    Unary (minus :: ts) (.binary .subtract (.number .zero) e)
  | chain {ts : List Token} {e : Expr} : Chain ts e → Unary ts e

/-- A primary with calls, `.name` and `[…]` behind it, grouped to the left. -/
inductive Chain : List Token → Expr → Prop where
  | primary {ts : List Token} {e : Expr} : Primary ts e → Chain ts e
  | call {opening closing : Token} {us ts : List Token} {e : Expr} {args : List Expr} :
    Chain us e → opening.kind = .openParen → Items ts args → closing.kind = .closeParen →
    Chain (us ++ opening :: (ts ++ [closing])) (.call e args)
  | member {dot name : Token} {us : List Token} {e : Expr} : Chain us e → dot.kind = .dot →
    name.kind = .identifier →
    Chain (us ++ [dot, name]) (.member e (.identifier name.text) false)
  | index {opening closing : Token} {us ts : List Token} {e property : Expr} :
    Chain us e → opening.kind = .openBracket → Expression ts property →
    closing.kind = .closeBracket →
    Chain (us ++ opening :: (ts ++ [closing])) (.member e property true)

/-- Expressions separated by commas, possibly with a comma after the last one. -/
inductive Items : List Token → List Expr → Prop where
  | nil : Items [] []
  | last {ts : List Token} {e : Expr} : Expression ts e → Items ts [e]
  | cons {comma : Token} {us ts : List Token} {e : Expr} {es : List Expr} : Expression us e →
    comma.kind = .comma → Items ts es → Items (us ++ comma :: ts) (e :: es)

/-- The entries of a map separated by commas, possibly with a comma after the last one. -/
inductive Entries : List Token → List (Expr × Expr) → Prop where
  | nil : Entries [] []
  | last {us ts : List Token} {key value : Expr} : Key us key → Expression ts value →
    Entries (us ++ ts) [(key, value)]
  | cons {comma : Token} {us ts vs : List Token} {key value : Expr} {es : List (Expr × Expr)} :
    Key us key → Expression ts value → comma.kind = .comma → Entries vs es →
    Entries (us ++ (ts ++ comma :: vs)) ((key, value) :: es)

/-- The key of an entry with what separates it from the value: `name:` or `key =>`. -/
inductive Key : List Token → Expr → Prop where
  | name {name colon : Token} : name.kind = .identifier → colon.kind = .colon →
    Key [name, colon] (.atom name.text)
  | arrow {arrow : Token} {ts : List Token} {e : Expr} : Expression ts e →
    arrow.kind = .fatArrow → Key (ts ++ [arrow]) e

/-- The expressions that need no context. -/
inductive Primary : List Token → Expr → Prop where
  | identifier {t : Token} : t.kind = .identifier → Primary [t] (.identifier t.text)
  | number {t : Token} : t.kind = .number → Primary [t] (.number (.ofNumeral t.text))
  /-- The name of an atom is written behind a colon. -/
  | atom {t : Token} {name : List Char} : t.kind = .atom → t.text.toList = ':' :: name →
    name.head? ≠ some ':' → Primary [t] (.atom (String.ofList name))
  /-- The body of a string is decoded, and what its markers enclose is read. -/
  | string {t : Token} {inners fragments : List String} {es : List Expr} :
    t.kind = .string → Template.markers? t.text = some inners → Holes inners fragments es →
    Primary [t] (.string (Template.unescape t.text) fragments es)
  | group {opening closing : Token} {ts : List Token} {e : Expr} : opening.kind = .openParen →
    Expression ts e → closing.kind = .closeParen → Primary (opening :: (ts ++ [closing])) e
  | tuple {opening closing : Token} {ts : List Token} {es : List Expr} :
    opening.kind = .openBrace → Items ts es → closing.kind = .closeBrace →
    Primary (opening :: (ts ++ [closing])) (.tuple es)
  | list {opening closing : Token} {ts : List Token} {es : List Expr} :
    opening.kind = .openBracket → Items ts es → closing.kind = .closeBracket →
    Primary (opening :: (ts ++ [closing])) (.list es)
  | map {opening closing : Token} {ts : List Token} {es : List (Expr × Expr)} :
    opening.kind = .mapOpen → Entries ts es → closing.kind = .closeBrace →
    Primary (opening :: (ts ++ [closing])) (.map es)
  /-- `fn (params) -> body end`. -/
  | lambda {fnWord opening closing arrow endWord : Token} {ps ts : List Token}
      {params : List String} {body : Expr} :
    fnWord.kind = .keyword .fnWord → opening.kind = .openParen → Names ps params →
    closing.kind = .closeParen → arrow.kind = .arrow → Expression ts body →
    endWord.kind = .keyword .endWord →
    Primary (fnWord :: opening :: (ps ++ closing :: arrow :: (ts ++ [endWord])))
      (.lambda params body)
  /-- `fn params -> body end`. -/
  | bareLambda {fnWord arrow endWord : Token} {ps ts : List Token} {params : List String}
      {body : Expr} :
    fnWord.kind = .keyword .fnWord → Names ps params → arrow.kind = .arrow →
    Expression ts body → endWord.kind = .keyword .endWord →
    Primary (fnWord :: (ps ++ arrow :: (ts ++ [endWord]))) (.lambda params body)

/-- What the markers of a string enclose: each is a text that holds one expression. -/
inductive Holes : List String → List String → List Expr → Prop where
  | nil : Holes [] [] []
  | cons {inner : String} {inners fragments : List String} {ts : List Token} {last : Token}
      {e : Expr} {es : List Expr} :
    tokenize (Template.unescape inner) = .ok (ts ++ [last]) → last.kind = .eof →
    Statements ts [.expression e] → Holes inners fragments es →
    Holes (inner :: inners) (Template.unescape (Template.markerText inner) :: fragments) (e :: es)

end

end Grammar

end AtomScript
