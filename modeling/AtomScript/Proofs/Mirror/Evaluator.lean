import AtomScript.Eval.Basic
import AtomScript.Proofs.Mirror.Native

/-!
# Programs mirror themselves

What a program does to a state, it does to the shifted state (`mirrors_evalTopLevel`).  So neither
its results nor its errors depend on where in memory things are, nor on what else is there.

The proof follows the evaluator: one lemma for each combinator, and one induction on the fuel for
expressions, statements and calls together (`MirrorsItself`).
-/

namespace AtomScript

open Eval

variable {σ : Shift}

/-- The value that a statement hands on, shifted. -/
def Shift.flow (σ : Shift) : Flow → Flow
  | .normal v => .normal (σ.value v)
  | .returning v => .returning (σ.value v)
  | .breaking => .breaking
  | .continuing => .continuing

/-! ### Combinators -/

section Combinators

variable {eval eval' : Expr → Eval Value}

/-- A block, if each of its statements mirrors itself. -/
theorem mirrors_runBlock {step step' : Stmt → Eval Flow}
    (hstep : ∀ s, Mirrors σ σ.flow (step s) (step' s)) (last : Value) (ss : List Stmt) :
    Mirrors σ σ.flow (runBlock step last ss) (runBlock step' (σ.value last) ss) := by
  induction ss generalizing last with
  | nil => exact mirrors_pure (Flow.normal last)
  | cons s ss ih =>
    refine (hstep s).bind fun flow => ?_
    cases flow with
    | normal v => exact ih v
    | returning v => exact mirrors_pure (Flow.returning v)
    | breaking => exact mirrors_pure Flow.breaking
    | continuing => exact mirrors_pure Flow.continuing

/-- The clauses of a conditional, if the conditions and the bodies mirror themselves. -/
theorem mirrors_runClauses {condition condition' : Expr → Eval Bool}
    {body body' : List Stmt → Eval Flow}
    (hcondition : ∀ c, Mirrors σ id (condition c) (condition' c))
    (hbody : ∀ b, Mirrors σ σ.flow (body b) (body' b)) (clauses : List Clause) :
    Mirrors σ σ.flow (runClauses condition body clauses)
      (runClauses condition' body' clauses) := by
  induction clauses with
  | nil => exact mirrors_pure (Flow.normal .null)
  | cons c clauses ih =>
    obtain ⟨_ | c, b⟩ := c
    -- an `else` clause is always taken, so the ones after it are not reached on either side
    · exact hbody b
    · refine (hcondition c).bind fun holds => ?_
      cases holds with
      | true => exact hbody b
      | false => exact ih

/-- A loop, if its condition and its body mirror themselves. -/
theorem mirrors_runLoop {condition condition' : Eval Bool} {body body' : Eval Flow}
    (hcondition : Mirrors σ id condition condition') (hbody : Mirrors σ σ.flow body body')
    (n : Nat) : Mirrors σ σ.flow (runLoop condition body n) (runLoop condition' body' n) := by
  induction n with
  | zero => exact mirrors_exhausted
  | succ n ih =>
    refine hcondition.bind fun holds => ?_
    cases holds with
    | false => exact mirrors_pure (Flow.normal .null)
    | true =>
      refine hbody.bind fun flow => ?_
      cases flow with
      | normal v => exact ih
      | continuing => exact ih
      | breaking => exact mirrors_pure (Flow.normal .null)
      | returning v => exact mirrors_pure (Flow.returning v)

/-- The check that a condition is a boolean. -/
theorem mirrors_checkCondition (construct : String) (v : Value) :
    Mirrors σ id (checkCondition construct v) (checkCondition construct (σ.value v)) := by
  have hfail : Mirrors σ id (do fail (.conditionNotBoolean construct v.kind (← inspect v)))
      (do fail (.conditionNotBoolean construct (σ.value v).kind (← inspect (σ.value v))) :
        Eval Bool) := by
    rw [σ.kind_value]
    exact (mirrors_inspect v).bind fun text => mirrors_fail _
  cases v with
  | boolean b => exact mirrors_pure b
  | _ => exact hfail

/-- Filling the holes of a string. -/
theorem mirrors_fillHoles (heval : ∀ e, Mirrors σ σ.value (eval e) (eval' e)) (text : String)
    (fragments : List String) (expressions : List Expr) :
    Mirrors σ id (fillHoles eval text fragments expressions)
      (fillHoles eval' text fragments expressions) := by
  induction fragments generalizing text expressions with
  | nil => exact mirrors_pure text
  | cons fragment fragments ih =>
    cases expressions with
    | nil => exact mirrors_pure text
    | cons e expressions =>
      refine (heval e).bind fun v => ?_
      exact (mirrors_rawText v).bind fun filling => ih _ expressions

/-- Filling the table of a map. -/
theorem mirrors_fillTable (heval : ∀ e, Mirrors σ σ.value (eval e) (eval' e)) (t : Table)
    (entries : List (Expr × Expr)) :
    Mirrors σ σ.table (fillTable eval t entries) (fillTable eval' (σ.table t) entries) := by
  induction entries generalizing t with
  | nil => exact mirrors_pure t
  | cons entry entries ih =>
    refine (heval entry.1).bind fun k => ?_
    refine (mirrors_detachKey k).bind fun key => ?_
    refine (heval entry.2).bind fun value => ?_
    exact (Native.mirrors_addEntry t key value).bind ih

/-- Binding the parameters of a function to its arguments. -/
theorem mirrors_bindNames (s : ScopeId) (names : List String) (vs : List Value) :
    Mirrors σ id (bindNames s names vs) (bindNames (σ.scopes + s) names (vs.map σ.value)) := by
  induction names generalizing vs with
  | nil => exact mirrors_pure ()
  | cons name names ih =>
    cases vs with
    | nil => exact mirrors_pure ()
    | cons v vs => exact (mirrors_declare s name v).bind fun _ => ih vs

/-- The check of the literal parts of a pattern. -/
theorem mirrors_checkKinds (heval : ∀ e, Mirrors σ σ.value (eval e) (eval' e)) (es : List Expr)
    (vs : List Value) :
    Mirrors σ id (checkKinds eval es vs) (checkKinds eval' es (vs.map σ.value)) := by
  induction es generalizing vs with
  | nil => exact mirrors_pure ()
  | cons e es ih =>
    cases vs with
    | nil => exact mirrors_pure ()
    | cons v vs =>
      refine (heval e).bind fun expected => ?_
      rw [σ.kind_value, σ.kind_value]
      split
      · exact ih vs
      · refine (mirrors_inspect expected).bind fun expectedText => ?_
        exact (mirrors_inspect v).bind fun foundText => mirrors_fail _

/-- Taking a sequence apart by a pattern. -/
theorem mirrors_matchSequence (heval : ∀ e, Mirrors σ σ.value (eval e) (eval' e)) (s : ScopeId)
    (kind : SequenceKind) (patterns : List Expr) (v : Value) :
    Mirrors σ σ.value (matchSequence eval s kind patterns v)
      (matchSequence eval' (σ.scopes + s) kind patterns (σ.value v)) := by
  unfold matchSequence
  rw [Native.sequenceRef?_value, σ.kind_value]
  cases Native.sequenceRef? kind v with
  | none => exact (mirrors_inspect v).bind fun text => mirrors_fail _
  | some r =>
    refine (mirrors_items r).bind fun xs => ?_
    dsimp only
    rw [Array.toList_map, List.length_map]
    split
    · exact (mirrors_inspect v).bind fun text => mirrors_fail _
    · cases patternNames? patterns with
      | some names =>
        exact (mirrors_bindNames s names xs.toList).bind fun _ => mirrors_pure v
      | none => exact (mirrors_checkKinds heval patterns xs.toList).bind fun _ => mirrors_pure v

end Combinators

/-! ### Members and calls -/

/-- An access to a member. -/
theorem mirrors_memberOf (v : Value) (property : Expr) (computed : Bool) :
    Mirrors σ σ.value (memberOf v property computed) (memberOf (σ.value v) property computed) := by
  have hfail : Mirrors σ σ.value
      (do fail (.memberOfNonModule property.print v.kind (← inspect v)))
      (do fail (.memberOfNonModule property.print (σ.value v).kind (← inspect (σ.value v)))) := by
    rw [σ.kind_value]
    exact (mirrors_inspect v).bind fun text => mirrors_fail _
  cases v with
  | library m =>
    dsimp only [Shift.value, memberOf]
    split
    · next name _ =>
      cases m.find? name with
      | some f => exact mirrors_pure (Value.native f)
      | none => exact mirrors_fail _
    · exact mirrors_fail _
  | _ => exact hfail

/-- The check that there is an argument for each parameter. -/
theorem mirrors_checkParams (callee : String) (params : List String) (args : List Value) :
    Mirrors σ id (checkArity callee params args) (checkArity callee params (args.map σ.value)) := by
  unfold checkArity
  rw [List.length_map]
  split
  · exact mirrors_pure ()
  · exact mirrors_fail _

/-- What a call gives for the flow its body ends in. -/
theorem mirrors_callResult (name : String) (flow : Flow) :
    Mirrors σ σ.value (callResult name flow) (callResult name (σ.flow flow)) := by
  cases flow with
  | normal v => exact mirrors_pure Value.null
  | returning v => exact mirrors_pure v
  | breaking => exact mirrors_fail _
  | continuing => exact mirrors_fail _

/-! ### The evaluator -/

/-- With the given fuel, evaluation in a shifted state mirrors evaluation in the state itself. -/
structure MirrorsItself (σ : Shift) (n : Nat) : Prop where
  expr : ∀ s e, Mirrors σ σ.value (evalExpr n s e) (evalExpr n (σ.scopes + s) e)
  stmt : ∀ s stmt, Mirrors σ σ.flow (evalStmt n s stmt) (evalStmt n (σ.scopes + s) stmt)
  call : ∀ v vs, Mirrors σ σ.value (callValue n v vs) (callValue n (σ.value v) (vs.map σ.value))

namespace MirrorsItself

variable {n : Nat}

/-- With no fuel both sides are exhausted. -/
theorem zero : MirrorsItself σ 0 where
  expr s e := by
    unfold evalExpr
    exact mirrors_exhausted
  stmt s stmt := by
    unfold evalStmt
    exact mirrors_exhausted
  call v vs := by
    unfold callValue
    exact mirrors_exhausted

variable (ih : MirrorsItself σ n)

include ih

/-- The expressions of a list, from left to right. -/
theorem exprs (s : ScopeId) (es : List Expr) :
    Mirrors σ (List.map σ.value) (mapAll (evalExpr n s) es)
      (mapAll (evalExpr n (σ.scopes + s)) es) := by
  have h := mirrors_mapAll (f := id) (ih.expr s) es
  rwa [List.map_id] at h

/-- The statements of a block. -/
theorem block (s : ScopeId) (body : List Stmt) :
    Mirrors σ σ.flow (runBlock (evalStmt n s) .null body)
      (runBlock (evalStmt n (σ.scopes + s)) .null body) :=
  mirrors_runBlock (ih.stmt s) .null body

/-- A condition: its evaluation and its check. -/
theorem condition (construct : String) (s : ScopeId) (c : Expr) :
    Mirrors σ id (do checkCondition construct (← evalExpr n s c))
      (do checkCondition construct (← evalExpr n (σ.scopes + s) c)) :=
  (ih.expr s c).bind fun v => mirrors_checkCondition construct v

/-- Whether a value counts as true. -/
theorem truth (s : ScopeId) (e : Expr) :
    Mirrors σ σ.value (do return .boolean (← evalExpr n s e).isTruthy)
      (do return .boolean (← evalExpr n (σ.scopes + s) e).isTruthy) := by
  refine (ih.expr s e).bind fun v => ?_
  rw [σ.isTruthy_value]
  exact mirrors_pure (Value.boolean _)

/-- An expression, from one unit of fuel less. -/
theorem succ_expr (s : ScopeId) (e : Expr) :
    Mirrors σ σ.value (evalExpr (n + 1) s e) (evalExpr (n + 1) (σ.scopes + s) e) := by
  unfold evalExpr
  split
  -- one case per constructor of `Expr`, in the order of the evaluator's equations
  · exact mirrors_pure (Value.number _)
  · exact (mirrors_fillHoles (ih.expr s) _ _ _).bind fun text => mirrors_pure (Value.string text)
  · exact mirrors_lookup s _
  · exact mirrors_pure (Value.atom _)
  · refine (ih.expr s _).bind fun a => ?_
    rw [σ.isTruthy_value]
    split
    · exact ih.truth s _
    · exact mirrors_pure (Value.boolean false)
  · refine (ih.expr s _).bind fun a => ?_
    rw [σ.isTruthy_value]
    split
    · exact mirrors_pure (Value.boolean true)
    · exact ih.truth s _
  · refine (ih.expr s _).bind fun a => (ih.expr s _).bind fun b => ?_
    -- comparing two containers reads the heaps: nothing is written, so the states stay shifted
    exact mirrors_reading fun st st' hst => hst.heap.apply _ a b
  · refine (ih.expr s _).bind fun a => ?_
    rw [σ.isTruthy_value]
    exact mirrors_pure (Value.boolean _)
  · refine (ih.expr s _).bind fun v => ?_
    exact (mirrors_rebind s _ v).bind fun _ => mirrors_pure v
  · refine (ih.expr s _).bind fun v => ?_
    exact mirrors_matchSequence (ih.expr s) s .tuple _ v
  · refine (ih.expr s _).bind fun v => ?_
    exact mirrors_matchSequence (ih.expr s) s .list _ v
  · exact mirrors_fail _
  · refine (ih.expr s _).bind fun v => ?_
    exact (mirrors_declare s _ v).bind fun _ => mirrors_pure v
  · refine (ih.expr s _).bind fun f => (ih.exprs s _).bind fun vs => ?_
    exact ih.call f vs
  · exact (ih.expr s _).bind fun v => mirrors_memberOf v _ _
  · exact (ih.exprs s _).bind fun vs => mirrors_newTuple vs
  · exact (ih.exprs s _).bind fun vs => mirrors_newList vs
  · next entries =>
    have htable := mirrors_fillTable (ih.expr s) (.withRoom entries.length) entries
    exact htable.bind fun t => mirrors_newMap t
  · next params body =>
    refine mirrors_newIdentity.bind fun id => ?_
    exact mirrors_pure (Value.lambda ⟨id, params, body, s⟩)

/-- A statement, from one unit of fuel less. -/
theorem succ_stmt (s : ScopeId) (stmt : Stmt) :
    Mirrors σ σ.flow (evalStmt (n + 1) s stmt) (evalStmt (n + 1) (σ.scopes + s) stmt) := by
  unfold evalStmt
  split
  · exact (ih.expr s _).bind fun v => mirrors_pure (Flow.normal v)
  · refine mirrors_runClauses (ih.condition "if" s) (fun body => ?_) _
    -- a branch has a scope of its own
    exact (mirrors_newScope s).bind fun inner => ih.block inner body
  · exact mirrors_runLoop (ih.condition "while" s _) (ih.block s _) n
  · next name params body =>
    refine mirrors_newIdentity.bind fun id => ?_
    refine (mirrors_declare s name (.function ⟨id, name, params, body, s⟩)).bind fun _ => ?_
    exact mirrors_pure (Flow.normal (.function ⟨id, name, params, body, s⟩))
  · exact mirrors_pure (Flow.returning .null)
  · exact (ih.expr s _).bind fun v => mirrors_pure (Flow.returning v)
  · exact mirrors_pure Flow.breaking
  · exact mirrors_pure Flow.continuing

/-- A call, from one unit of fuel less. -/
theorem succ_call (v : Value) (vs : List Value) :
    Mirrors σ σ.value (callValue (n + 1) v vs)
      (callValue (n + 1) (σ.value v) (vs.map σ.value)) := by
  have hfail : Mirrors σ σ.value (do fail (.notCallable (← inspect v) v.kind))
      (do fail (.notCallable (← inspect (σ.value v)) (σ.value v).kind)) := by
    rw [σ.kind_value]
    exact (mirrors_inspect v).bind fun text => mirrors_fail _
  unfold callValue
  cases v with
  | native f => exact (Native.mirrors_run ih.call f vs).frame
  -- the body runs in a new scope inside the one of the function, wherever that is
  | function f =>
    refine (mirrors_checkParams f.name f.params vs).bind fun _ => Mirrors.frame ?_
    refine (mirrors_newScope f.scope).bind fun s => ?_
    refine (mirrors_bindNames s f.params vs).bind fun _ => ?_
    exact (ih.block s f.body).bind fun flow => mirrors_callResult f.name flow
  | lambda f =>
    refine (mirrors_checkParams _ f.params vs).bind fun _ => Mirrors.frame ?_
    refine (mirrors_newScope f.scope).bind fun s => ?_
    refine (mirrors_bindNames s f.params vs).bind fun _ => ?_
    exact ih.expr s f.body
  | _ => exact hfail

end MirrorsItself

/-- **Evaluation mirrors itself**, by induction on the fuel. -/
theorem mirrorsItself (σ : Shift) (n : Nat) : MirrorsItself σ n := by
  induction n with
  | zero => exact .zero
  | succ n ih => exact ⟨ih.succ_expr, ih.succ_stmt, ih.succ_call⟩

/-! ### Programs -/

/-- A statement of a program. -/
theorem mirrors_evalTopLevel (n : Nat) (s : ScopeId) (stmt : Stmt) :
    Mirrors σ σ.value (evalTopLevel n s stmt) (evalTopLevel n (σ.scopes + s) stmt) := by
  refine ((mirrorsItself σ n).stmt s stmt).bind fun flow => ?_
  cases flow with
  | normal v => exact mirrors_pure v
  | returning v => exact mirrors_fail _
  | breaking => exact mirrors_fail _
  | continuing => exact mirrors_fail _

/-- **A program mirrors itself.** -/
theorem mirrors_evalProgram (n : Nat) (s : ScopeId) (p : Program) :
    Mirrors σ (List.map σ.value) (evalProgram n s p) (evalProgram n (σ.scopes + s) p) := by
  have h := mirrors_mapAll (f := id) (mirrors_evalTopLevel (σ := σ) n s) p
  rwa [List.map_id] at h

/-- A program, statement by statement, with the value of the last. -/
theorem mirrors_evalLast (n : Nat) (s : ScopeId) (p : Program) :
    Mirrors σ σ.value (evalLast n s p) (evalLast n (σ.scopes + s) p) := by
  have h := mirrors_foldAll (f := id) (g := σ.value) (p := fun _ => evalTopLevel n s)
    (q := fun _ => evalTopLevel n (σ.scopes + s)) (fun _ => mirrors_evalTopLevel n s) .null p
  rwa [List.map_id] at h

end AtomScript
