import AtomScript.Eval.Operator
import AtomScript.Library.Dispatch
import AtomScript.Program.Printer
import AtomScript.Text.Search

/-!
# Evaluation

Expressions have values; statements end in a `Flow`, which says whether the next statement follows
or a `return`, `break` or `continue` is on its way.

Three functions call each other — `evalExpr`, `evalStmt` and `callValue` — with one unit of fuel
less at each step down.  What they do with lists of expressions, statements and clauses is written
as combinators of computations, so that a property of computations need be shown for each
combinator once.
-/

namespace AtomScript

/-- How a statement ends. -/
inductive Flow where
  | normal (v : Value)
  | returning (v : Value)
  | breaking
  | continuing
  deriving Inhabited

open Eval

/-! ### Combinators -/

/-- Runs statements in order, up to the first that does not end normally.  The value is that of the
last statement. -/
def runBlock (step : Stmt → Eval Flow) : Value → List Stmt → Eval Flow
  | last, [] => return .normal last
  | _, s :: ss => do
    match ← step s with
    | .normal v => runBlock step v ss
    | signal => return signal

/-- Takes the first clause whose condition holds. -/
def runClauses (condition : Expr → Eval Bool) (body : List Stmt → Eval Flow) :
    List Clause → Eval Flow
  | [] => return .normal .null
  | .mk none b _ :: _ => body b
  | .mk (some c) b _ :: rest => do
    if ← condition c then body b else runClauses condition body rest

/-- Runs the body while the condition holds. -/
def runLoop (condition : Eval Bool) (body : Eval Flow) : Nat → Eval Flow
  | 0 => exhausted
  | n + 1 => do
    if ← condition then
      match ← body with
      | .normal _ | .continuing => runLoop condition body n
      | .breaking => return .normal .null
      | .returning v => return .returning v
    else return .normal .null

/-- The truth of a condition, which must be a boolean. -/
def checkCondition (construct : String) (v : Value) : Eval Bool := do
  match v with
  | .boolean b => return b
  | v => fail (.conditionNotBoolean construct v.kind (← inspect v))

/-- Replaces the fragments of a string, one after the other, by the texts of the values of the
expressions at their places. -/
def fillHoles (eval : Expr → Eval Value) : String → List String → List Expr → Eval String
  | text, fragment :: fragments, e :: expressions => do
    let v ← eval e
    fillHoles eval (Text.substitute text fragment (← rawText v)) fragments expressions
  | text, _, _ => return text

/-- Adds the entries of a map literal to a table. -/
def fillTable (eval : Expr → Eval Value) : Table → List (Expr × Expr) → Eval Table
  | t, [] => return t
  | t, (k, v) :: entries => do
    let key ← detachKey (← eval k)
    let value ← eval v
    fillTable eval (← Native.addEntry t key value) entries

/-! ### Patterns -/

/-- Binds each name to the element at its place. -/
def bindNames (s : ScopeId) : List String → List Value → Eval Unit
  | name :: names, v :: vs => do
    declare s name v
    bindNames s names vs
  | _, _ => return ()

/-- Compares the kinds of the elements with those of the pattern's items. -/
def checkKinds (eval : Expr → Eval Value) : List Expr → List Value → Eval Unit
  | e :: es, v :: vs => do
    let expected ← eval e
    if expected.kind = v.kind then checkKinds eval es vs
    else
      fail (.elementKind (← inspect expected) expected.kind (← inspect v) v.kind)
  | _, _ => return ()

/-- The names of a pattern that is made of names only, and has at least one. -/
def patternNames? (items : List Expr) : Option (List String) :=
  if items.isEmpty then none else items.mapM Expr.name?

/-- Matches a value against a tuple or list pattern.  A pattern of names binds them; any other
pattern is compared with the value, element by element, by kind. -/
def matchSequence (eval : Expr → Eval Value) (s : ScopeId) (kind : SequenceKind)
    (patterns : List Expr) (v : Value) : Eval Value := do
  match Native.sequenceRef? kind v with
  | none => fail (.patternKind kind v.kind (← inspect v))
  | some r =>
    let elements := (← items r).toList
    if elements.length ≠ patterns.length then
      let pattern := match kind with
        | .tuple => Expr.tuple patterns
        | .list => Expr.list patterns
      fail (.patternLength pattern.print patterns.length (← inspect v) elements.length)
    else
      match patternNames? patterns with
      | some names => bindNames s names elements
      | none => checkKinds eval patterns elements
      return v

/-! ### Members and calls -/

/-- The function that a member access means.  No value has computed members. -/
def memberOf (v : Value) (property : Expr) (computed : Bool) : Eval Value := do
  match v with
  | .library m =>
    match property.name?, computed with
    | some name, false =>
      match m.find? name with
      | some f => return .native f
      | none => fail (.unknownMember m name)
    | _, _ => fail (.memberNotName m property.print)
  | v => fail (.memberOfNonModule property.print v.kind (← inspect v))

/-- Fails unless the number of arguments is right. -/
def checkArity (callee : String) (params : List String) (args : List Value) : Eval Unit :=
  if params.length = args.length then return ()
  else fail (.arity callee params.length args.length)

/-- What a call gives when its body has ended. -/
def callResult (name : String) : Flow → Eval Value
  | .normal _ => return .null
  | .returning v => return v
  | .breaking | .continuing => fail (.loopControlInFunction name)

/-! ### The evaluator -/

mutual

/-- The value of an expression in a scope. -/
def evalExpr : Nat → ScopeId → Expr → Eval Value
  | 0, _, _ => exhausted
  | n + 1, s, e =>
    match e with
    | .number x => return .number x
    | .string raw fragments expressions => do
      return .string (← fillHoles (evalExpr n s) raw fragments expressions)
    | .identifier name => lookup s name
    | .atom name => return .atom name
    | .binary .and left right => do
      if (← evalExpr n s left).isTruthy then return .boolean (← evalExpr n s right).isTruthy
      else return .boolean false
    | .binary .or left right => do
      if (← evalExpr n s left).isTruthy then return .boolean true
      else return .boolean (← evalExpr n s right).isTruthy
    | .binary op left right => do
      let a ← evalExpr n s left
      let b ← evalExpr n s right
      reading fun st => op.apply st.heap a b
    | .not operand => do return .boolean !(← evalExpr n s operand).isTruthy
    | .bind (.identifier name) value => do
      let v ← evalExpr n s value
      rebind s name v
      return v
    | .bind (.tuple items) value => do
      matchSequence (evalExpr n s) s .tuple items (← evalExpr n s value)
    | .bind (.list items) value => do
      matchSequence (evalExpr n s) s .list items (← evalExpr n s value)
    | .bind pattern _ => fail (.invalidPattern pattern.print)
    | .declare name value => do
      let v ← evalExpr n s value
      declare s name v
      return v
    | .call callee args => do
      let f ← evalExpr n s callee
      let vs ← mapAll (evalExpr n s) args
      callValue n f vs
    | .member object property computed => do
      memberOf (← evalExpr n s object) property computed
    | .tuple items => do newTuple (← mapAll (evalExpr n s) items)
    | .list items => do newList (← mapAll (evalExpr n s) items)
    | .map entries => do newMap (← fillTable (evalExpr n s) (.withRoom entries.length) entries)
    | .lambda params body => do
      return .lambda { id := ← newIdentity, params := params, body := body, scope := s }

/-- Runs a statement in a scope. -/
def evalStmt : Nat → ScopeId → Stmt → Eval Flow
  | 0, _, _ => exhausted
  | n + 1, s, stmt =>
    match stmt with
    | .expression e => do return .normal (← evalExpr n s e)
    | .conditional clauses =>
      runClauses (fun c => do checkCondition "if" (← evalExpr n s c))
        (fun body => do
          let inner ← newScope s
          runBlock (evalStmt n inner) .null body)
        clauses
    | .whileLoop c body =>
      runLoop (do checkCondition "while" (← evalExpr n s c)) (runBlock (evalStmt n s) .null body) n
    | .define name params body => do
      let f := Value.function
        { id := ← newIdentity, name := name, params := params, body := body, scope := s }
      declare s name f
      return .normal f
    | .returning none => return .returning .null
    | .returning (some e) => do return .returning (← evalExpr n s e)
    | .breaking => return .breaking
    | .continuing => return .continuing

/-- Calls a value with arguments. -/
def callValue : Nat → Value → List Value → Eval Value
  | 0, _, _ => exhausted
  | n + 1, callee, args =>
    match callee with
    | .native f => frame (f.run (callValue n) args)
    | .function f => do
      checkArity f.name f.params args
      frame do
        let s ← newScope f.scope
        bindNames s f.params args
        callResult f.name (← runBlock (evalStmt n s) .null f.body)
    | .lambda f => do
      checkArity "anonymous function" f.params args
      frame do
        let s ← newScope f.scope
        bindNames s f.params args
        evalExpr n s f.body
    | v => do fail (.notCallable (← inspect v) v.kind)

end

/-- Runs statements in a scope. -/
def evalBlock (n : Nat) (s : ScopeId) (body : List Stmt) : Eval Flow :=
  runBlock (evalStmt n s) .null body

/-- Runs a statement outside any function and loop, where a signal has nowhere to go. -/
def evalTopLevel (n : Nat) (s : ScopeId) (stmt : Stmt) : Eval Value := do
  match ← evalStmt n s stmt with
  | .normal v => return v
  | .returning _ => fail .returnOutsideFunction
  | .breaking => fail .breakOutsideLoop
  | .continuing => fail .continueOutsideLoop

/-- Runs a program: the values of its statements. -/
def evalProgram (n : Nat) (s : ScopeId) (p : Program) : Eval (List Value) :=
  mapAll (evalTopLevel n s) p

/-- Runs a program for the value of its last statement; that of a program without statements is
`null`. -/
def evalLast (n : Nat) (s : ScopeId) (p : Program) : Eval Value :=
  foldAll (fun _ stmt => evalTopLevel n s stmt) .null p

end AtomScript
