import AtomScript.Proofs.Eval.Native

/-!
# The evaluator in a logic of computations

A rule for each combinator of the evaluator, and from these, by one induction on the fuel, the rules
for the three functions that call each other:

* `Evaluates.expr` — an expression, run in a scope where code may run, gives a value that may be at
  large;
* `Evaluates.stmt` — a statement, all of whose functions may be made, ends in a flow that carries
  such a value, and a signal leaves it only if the statement exposes it;
* `Evaluates.call` — so does a call, of a value and with arguments that may be at large.

`Logic.evalProgram` and `Logic.evalLast` are the rules for whole programs.
-/

namespace AtomScript

/-- The signal that the flow sends up. -/
def Flow.signal? : Flow → Option Signal
  | normal _ => none
  | returning _ => some .returning
  | breaking => some .breaking
  | continuing => some .continuing

/-- The branch of a conditional that is taken, in a scope of its own. -/
def evalBranch (n : Nat) (s : ScopeId) (body : List Stmt) : Eval Flow := do
  evalBlock n (← Eval.newScope s) body

/-- A conditional runs its clauses: the condition is checked, and the branch is run in a scope of
its own. -/
theorem evalStmt_conditional (n : Nat) (s : ScopeId) (clauses : List Clause) :
    evalStmt (n + 1) s (.conditional clauses) =
      runClauses (fun c => do checkCondition "if" (← evalExpr n s c)) (evalBranch n s) clauses := by
  rw [evalStmt]
  rfl

namespace Logic

variable {L : Logic} {w : L.World}

/-- The value that a flow carries may be at large, and its signal is one of those given. -/
def Carries (L : Logic) (sends : Signal → Prop) (w : L.World) : Flow → Prop
  | .normal v => L.Val w v
  | .returning v => L.Val w v ∧ sends .returning
  | .breaking => sends .breaking
  | .continuing => sends .continuing

/-- A flow that carries some signals carries more. -/
theorem Carries.imp {sends sends' : Signal → Prop} {flow : Flow} (h : L.Carries sends w flow)
    (hk : ∀ k, sends k → sends' k) : L.Carries sends' w flow := by
  cases flow with
  | normal v => exact h
  | returning v => exact ⟨h.1, hk .returning h.2⟩
  | breaking => exact hk .breaking h
  | continuing => exact hk .continuing h

/-- The signal of a flow is one of those it may carry. -/
theorem Carries.sends {sends : Signal → Prop} {flow : Flow} {k : Signal}
    (h : L.Carries sends w flow) (hk : flow.signal? = some k) : sends k := by
  cases flow with
  | normal v => cases hk
  | returning v =>
    cases hk
    exact h.2
  | breaking =>
    cases hk
    exact h
  | continuing =>
    cases hk
    exact h

/-- Every function that the statement defines may be made. -/
def Makes (L : Logic) (s : Stmt) : Prop := ∀ body, s.Defines body → L.Body body

/-! ### Scopes -/

/-- Giving a name a value, in the scope that has it or in this one. -/
theorem rebind {s : ScopeId} {name : String} {v : Value} (hs : L.Here w s) (hv : L.Val w v) :
    L.Comp w (fun _ _ => True) (Eval.rebind s name v) := by
  unfold Eval.rebind
  refine L.bind reading_any fun w₁ known h₁ _ => ?_
  split
  · exact L.assign (L.here_mono h₁ hs) (L.val_mono h₁ hv)
  · exact L.declare (L.here_mono h₁ hs) (L.val_mono h₁ hv)

/-- Binding the parameters of a function to its arguments. -/
theorem bindNames {s : ScopeId} {names : List String} {vs : List Value} (hs : L.Here w s)
    (hvs : L.Vals w vs) : L.Comp w (fun _ _ => True) (bindNames s names vs) := by
  -- names and values are taken in step, and the shorter list ends it
  induction names generalizing w vs with
  | nil =>
    unfold AtomScript.bindNames
    exact L.pure trivial
  | cons name names ih =>
    cases vs with
    | nil =>
      unfold AtomScript.bindNames
      exact L.pure trivial
    | cons v vs =>
      unfold AtomScript.bindNames
      refine L.bind (L.declare hs (hvs v List.mem_cons_self)) fun w₁ _ h₁ _ => ?_
      exact ih (L.here_mono h₁ hs) fun u hu => L.val_mono h₁ (hvs u (List.mem_cons_of_mem v hu))

/-! ### Statements -/

section Flow

variable {sends : Signal → Prop}

/-- A block, if each of its statements obeys the logic. -/
theorem runBlock {step : Stmt → Eval Flow} {last : Value} {body : List Stmt}
    (hstep : ∀ w' s, L.le w w' → s ∈ body → L.Comp w' (L.Carries sends) (step s))
    (hlast : L.Val w last) : L.Comp w (L.Carries sends) (runBlock step last body) := by
  -- a statement that ends in another flow ends the block
  induction body generalizing w last with
  | nil =>
    unfold AtomScript.runBlock
    exact L.pure hlast
  | cons s ss ih =>
    unfold AtomScript.runBlock
    refine L.bind (hstep w s (L.le_refl w) List.mem_cons_self) fun w₁ flow h₁ hflow => ?_
    cases flow with
    | normal v =>
      exact ih (fun w' t hle ht => hstep w' t (L.le_trans h₁ hle) (List.mem_cons_of_mem s ht)) hflow
    | returning v => exact L.pure hflow
    | breaking => exact L.pure hflow
    | continuing => exact L.pure hflow

/-- The clauses of a conditional, if the conditions and the bodies obey the logic. -/
theorem runClauses {condition : Expr → Eval Bool} {body : List Stmt → Eval Flow}
    {clauses : List Clause}
    (hcondition : ∀ w' c, L.le w w' → L.Comp w' (fun _ _ => True) (condition c))
    (hbody : ∀ w' c, L.le w w' → c ∈ clauses → L.Comp w' (L.Carries sends) (body c.body)) :
    L.Comp w (L.Carries sends) (runClauses condition body clauses) := by
  induction clauses generalizing w with
  | nil =>
    unfold AtomScript.runClauses
    exact L.pure (L.val_plain rfl)
  | cons clause rest ih =>
    -- a clause without a condition is the last that is looked at
    obtain ⟨_ | c, b⟩ := clause
    · unfold AtomScript.runClauses
      exact hbody w _ (L.le_refl w) List.mem_cons_self
    · unfold AtomScript.runClauses
      refine L.bind (hcondition w c (L.le_refl w)) fun w₁ holds h₁ _ => ?_
      split
      · exact hbody w₁ _ h₁ List.mem_cons_self
      · exact ih (fun w' c' hle => hcondition w' c' (L.le_trans h₁ hle))
          fun w' c' hle hc => hbody w' c' (L.le_trans h₁ hle) (List.mem_cons_of_mem _ hc)

/-- A loop takes every signal of its body but `return`. -/
theorem runLoop {condition : Eval Bool} {body : Eval Flow} {n : Nat}
    (hcondition : ∀ w', L.le w w' → L.Comp w' (fun _ _ => True) condition)
    (hbody : ∀ w', L.le w w' → L.Comp w' (L.Carries sends) body) :
    L.Comp w (L.Carries fun k => k = .returning ∧ sends k) (runLoop condition body n) := by
  induction n generalizing w with
  | zero =>
    unfold AtomScript.runLoop
    exact L.exhausted
  | succ n ih =>
    unfold AtomScript.runLoop
    refine L.bind (hcondition w (L.le_refl w)) fun w₁ holds h₁ _ => ?_
    -- both ways of going round again lead to the same loop in a later world
    have again : ∀ w', L.le w₁ w' → L.Comp w' (L.Carries fun k => k = .returning ∧ sends k)
        (AtomScript.runLoop condition body n) :=
      fun w' hle => ih (fun v hv => hcondition v (L.le_trans (L.le_trans h₁ hle) hv))
        fun v hv => hbody v (L.le_trans (L.le_trans h₁ hle) hv)
    split
    · refine L.bind (hbody w₁ h₁) fun w₂ flow h₂ hflow => ?_
      cases flow with
      | normal v => exact again w₂ h₂
      | continuing => exact again w₂ h₂
      | breaking => exact L.pure (L.val_plain rfl)
      | returning v => exact L.pure ⟨hflow.1, rfl, hflow.2⟩
    · exact L.pure (L.val_plain rfl)

end Flow

/-- The check that a condition is a boolean. -/
theorem checkCondition {construct : String} {v : Value} :
    L.Comp w (fun _ _ => True) (checkCondition construct v) := by
  unfold AtomScript.checkCondition
  split
  · exact L.pure trivial
  · exact fail_after fun _ => rfl

/-! ### Expressions -/

section Expr

variable {eval : Expr → Eval Value}
  (heval : ∀ w' e, L.le w w' → L.Comp w' L.Val (eval e))

include heval

/-- Filling the holes of a string, one evaluation after the other. -/
theorem fillHoles {text : String} {fragments : List String} {expressions : List Expr} :
    L.Comp w (fun _ _ => True) (fillHoles eval text fragments expressions) := by
  induction fragments generalizing w text expressions with
  | nil =>
    unfold AtomScript.fillHoles
    exact L.pure trivial
  | cons fragment fragments ih =>
    cases expressions with
    | nil =>
      unfold AtomScript.fillHoles
      exact L.pure trivial
    | cons e expressions =>
      -- the fragments and the expressions are taken in step
      unfold AtomScript.fillHoles
      refine L.bind (heval w _ (L.le_refl w)) fun w₁ v h₁ _ => ?_
      refine L.bind rawText fun w₂ _ h₂ _ => ?_
      exact ih fun w' e hle => heval w' e (L.le_trans h₁ (L.le_trans h₂ hle))

/-- Filling the table of a map, one entry after the other. -/
theorem fillTable {t : Table} {entries : List (Expr × Expr)} (ht : L.Tab w t) :
    L.Comp w L.Tab (fillTable eval t entries) := by
  induction entries generalizing w t with
  | nil =>
    unfold AtomScript.fillTable
    exact L.pure ht
  | cons entry entries ih =>
    unfold AtomScript.fillTable
    refine L.bind (heval w _ (L.le_refl w)) fun w₁ k h₁ hk => ?_
    refine L.bind (L.detachKey hk) fun w₂ key h₂ hkey => ?_
    have h₀₂ := L.le_trans h₁ h₂
    -- the key waits, detached and unfiled, while the value is evaluated
    refine L.bind (heval w₂ _ h₀₂) fun w₃ v h₃ hv => ?_
    have h₀₃ := L.le_trans h₀₂ h₃
    refine L.bind (addEntry (L.tab_mono h₀₃ ht) (L.key_mono h₃ hkey) hv) fun w₄ t' h₄ ht' => ?_
    exact ih (fun w' e hle => heval w' e (L.le_trans (L.le_trans h₀₃ h₄) hle)) ht'

/-- The check that literal parts of a pattern have the kinds of what they stand against. -/
theorem checkKinds {es : List Expr} {vs : List Value} :
    L.Comp w (fun _ _ => True) (checkKinds eval es vs) := by
  induction es generalizing w vs with
  | nil =>
    unfold AtomScript.checkKinds
    exact L.pure trivial
  | cons e es ih =>
    cases vs with
    | nil =>
      unfold AtomScript.checkKinds
      exact L.pure trivial
    | cons v vs =>
      unfold AtomScript.checkKinds
      -- the pattern's own expression is evaluated, and its kind is what counts
      refine L.bind (heval w e (L.le_refl w)) fun w₁ expected h₁ _ => ?_
      split
      · exact ih fun w' e' hle => heval w' e' (L.le_trans h₁ hle)
      · exact L.bind inspect fun _ _ _ _ => fail_after fun _ => rfl

/-- Taking a sequence apart by a pattern. -/
theorem matchSequence {s : ScopeId} {kind : SequenceKind} {patterns : List Expr} {v : Value}
    (hs : L.Here w s) (hv : L.Val w v) :
    L.Comp w L.Val (matchSequence eval s kind patterns v) := by
  unfold AtomScript.matchSequence
  split
  · exact fail_after fun _ => rfl
  · next r hr =>
    refine L.bind (items_vals hv (ref?_of_sequenceRef? hr)) fun w₁ xs h₁ hxs => ?_
    dsimp only
    -- a match fails before anything is bound when the lengths differ
    by_cases hlen : xs.toList.length ≠ patterns.length
    · rw [if_pos hlen]
      exact fail_after fun _ => rfl
    · rw [if_neg hlen]
      split
      · next names _ =>
        refine L.bind (bindNames (L.here_mono h₁ hs) hxs) fun w₂ _ h₂ _ => ?_
        exact L.pure (L.val_mono (L.le_trans h₁ h₂) hv)
      · refine L.bind (checkKinds fun w' e hle => heval w' e (L.le_trans h₁ hle))
          fun w₂ _ h₂ _ => ?_
        exact L.pure (L.val_mono (L.le_trans h₁ h₂) hv)

end Expr

/-- An access to a member. -/
theorem memberOf {v : Value} {property : Expr} {computed : Bool} :
    L.Comp w L.Val (memberOf v property computed) := by
  unfold AtomScript.memberOf
  split
  · split
    · split
      · exact L.pure (L.val_plain rfl)
      · exact fail_proper rfl
    · exact fail_proper rfl
  · exact fail_after fun _ => rfl

/-- The check that there is an argument for each parameter. -/
theorem checkParams {callee : String} {params : List String} {args : List Value} :
    L.Comp w (fun _ _ => True) (AtomScript.checkArity callee params args) := by
  unfold AtomScript.checkArity
  split
  · exact L.pure trivial
  · exact fail_proper rfl

/-- What a call gives for the flow its body ends in. -/
theorem callResult {name : String} {body : List Stmt} {flow : Flow} (hbody : L.Body body)
    (h : L.Carries (BodyExposes body) w flow) : L.Comp w L.Val (callResult name flow) := by
  cases flow with
  | normal v => exact L.pure (L.val_plain rfl)
  | returning v => exact L.pure h.1
  -- the body exposes a signal that a function body does not take
  | breaking => exact L.fail (L.fails_of_body hbody h (by decide))
  | continuing => exact L.fail (L.fails_of_body hbody h (by decide))

/-! ### The evaluator -/

/-- The rules for the three functions at one amount of fuel. -/
structure Evaluates (L : Logic) (n : Nat) : Prop where
  expr : ∀ {w s e}, L.Here w s → L.Comp w L.Val (evalExpr n s e)
  stmt : ∀ {w s stmt}, L.Here w s → L.Makes stmt →
    L.Comp w (L.Carries stmt.Exposes) (evalStmt n s stmt)
  call : ∀ {w v vs}, L.Val w v → L.Vals w vs → L.Comp w L.Val (callValue n v vs)

variable {n : Nat}

/-- With no fuel every evaluation is exhausted. -/
theorem Evaluates.zero : L.Evaluates 0 where
  expr := by
    intro w s e _
    unfold evalExpr
    exact L.exhausted
  stmt := by
    intro w s stmt _ _
    unfold evalStmt
    exact L.exhausted
  call := by
    intro w v vs _ _
    unfold callValue
    exact L.exhausted

/-- Expressions in a scope where code may run, from a world on. -/
theorem Evaluates.later (ih : L.Evaluates n) {s : ScopeId} (hs : L.Here w s) :
    ∀ w' e, L.le w w' → L.Comp w' L.Val (evalExpr n s e) :=
  fun _ _ hle => ih.expr (L.here_mono hle hs)

/-- The expressions of a list, from left to right. -/
theorem Evaluates.exprs (ih : L.Evaluates n) {s : ScopeId} {es : List Expr} (hs : L.Here w s) :
    L.Comp w L.Vals (Eval.mapAll (evalExpr n s) es) :=
  mapAll_vals fun w' e hle _ => ih.later hs w' e hle

/-- The statements of a block. -/
theorem Evaluates.block (ih : L.Evaluates n) {s : ScopeId} {body : List Stmt} (hs : L.Here w s)
    (hbody : ∀ stmt ∈ body, L.Makes stmt) :
    L.Comp w (L.Carries (BodyExposes body)) (AtomScript.runBlock (evalStmt n s) .null body) := by
  refine runBlock (fun w' stmt hle hstmt => ?_) (L.val_plain rfl)
  refine weaken (ih.stmt (L.here_mono hle hs) (hbody stmt hstmt)) fun _ _ _ hflow => ?_
  exact hflow.imp fun _ hk => ⟨stmt, hstmt, hk⟩

/-- The branch of a conditional has a scope of its own, unlike the body of a loop. -/
theorem Evaluates.branch (ih : L.Evaluates n) {s : ScopeId} {body : List Stmt} (hs : L.Scope w s)
    (hbody : ∀ stmt ∈ body, L.Makes stmt) :
    L.Comp w (L.Carries (BodyExposes body)) (evalBranch n s body) :=
  L.bind (L.newScope hs) fun _ _ _ hinner => ih.block hinner hbody

/-- A condition: its evaluation and its check. -/
theorem Evaluates.condition (ih : L.Evaluates n) {s : ScopeId} {construct : String} {c : Expr}
    (hs : L.Here w s) :
    L.Comp w (fun _ _ => True)
      (do AtomScript.checkCondition construct (← AtomScript.evalExpr n s c)) :=
  L.bind (ih.expr hs) fun _ _ _ _ => checkCondition

/-- An expression, from the rules with one unit of fuel less. -/
theorem Evaluates.succ_expr (ih : L.Evaluates n) {s : ScopeId} {e : Expr} (hs : L.Here w s) :
    L.Comp w L.Val (evalExpr (n + 1) s e) := by
  -- one rule for each form of expression, in the order of the definition
  unfold evalExpr
  split
  · exact L.pure (L.val_plain rfl)
  · exact L.bind (fillHoles (ih.later hs)) fun _ _ _ _ => L.pure (L.val_plain rfl)
  · exact L.lookup hs
  · exact L.pure (L.val_plain rfl)
  · refine L.bind (ih.expr hs) fun w₁ a h₁ _ => ?_
    split
    · exact L.bind (ih.later hs _ _ h₁) fun _ _ _ _ => L.pure (L.val_plain rfl)
    · exact L.pure (L.val_plain rfl)
  · refine L.bind (ih.expr hs) fun w₁ a h₁ _ => ?_
    split
    · exact L.pure (L.val_plain rfl)
    · exact L.bind (ih.later hs _ _ h₁) fun _ _ _ _ => L.pure (L.val_plain rfl)
  · refine L.bind (ih.expr hs) fun w₁ a h₁ _ => ?_
    refine L.bind (ih.later hs _ _ h₁) fun w₂ b h₂ _ => ?_
    -- operators compare contents, so they read the heap, but what they give is plain
    exact L.reading fun st _ => L.val_plain (isPlain_apply st.heap _ a b)
  · exact L.bind (ih.expr hs) fun _ _ _ _ => L.pure (L.val_plain rfl)
  · refine L.bind (ih.expr hs) fun w₁ v h₁ hv => ?_
    refine L.bind (rebind (L.here_mono h₁ hs) hv) fun w₂ _ h₂ _ => ?_
    exact L.pure (L.val_mono h₂ hv)
  · refine L.bind (ih.expr hs) fun w₁ v h₁ hv => ?_
    exact matchSequence (ih.later (L.here_mono h₁ hs)) (L.here_mono h₁ hs) hv
  · refine L.bind (ih.expr hs) fun w₁ v h₁ hv => ?_
    exact matchSequence (ih.later (L.here_mono h₁ hs)) (L.here_mono h₁ hs) hv
  · exact fail_proper rfl
  · refine L.bind (ih.expr hs) fun w₁ v h₁ hv => ?_
    -- a declaration binds in the scope at hand, an assignment where the name is known
    refine L.bind (L.declare (L.here_mono h₁ hs) hv) fun w₂ _ h₂ _ => ?_
    exact L.pure (L.val_mono h₂ hv)
  · refine L.bind (ih.expr hs) fun w₁ f h₁ hf => ?_
    refine L.bind (ih.exprs (L.here_mono h₁ hs)) fun w₂ vs h₂ hvs => ?_
    exact ih.call (L.val_mono h₂ hf) hvs
  · exact L.bind (ih.expr hs) fun _ _ _ _ => memberOf
  · exact L.bind (ih.exprs hs) fun _ _ _ hvs => L.newTuple hvs
  · exact L.bind (ih.exprs hs) fun _ _ _ hvs => L.newList hvs
  · exact L.bind (fillTable (ih.later hs) L.tab_withRoom) fun _ _ _ ht => L.newMap ht
  -- a function refers to the scope it is made in
  · refine L.bind L.newIdentity fun w₁ id h₁ _ => ?_
    exact L.pure (L.val_lambda.2 (L.here_scope (L.here_mono h₁ hs)))

/-- A statement, from the rules with one unit of fuel less. -/
theorem Evaluates.succ_stmt (ih : L.Evaluates n) {s : ScopeId} {stmt : Stmt} (hs : L.Here w s)
    (hmakes : L.Makes stmt) :
    L.Comp w (L.Carries stmt.Exposes) (evalStmt (n + 1) s stmt) := by
  unfold evalStmt
  split
  · exact L.bind (ih.expr hs) fun _ _ _ hv => L.pure hv
  · next clauses =>
    refine runClauses (fun w' c hle => ih.condition (L.here_mono hle hs)) fun w' c hle hc => ?_
    have hbranch : ∀ t ∈ c.body, L.Makes t := fun t ht b hb => hmakes b (.inClause hc ht hb)
    refine weaken (ih.branch (L.here_scope (L.here_mono hle hs)) hbranch)
      fun _ _ _ hflow => hflow.imp ?_
    rintro k ⟨t, ht, hk⟩
    exact .inClause hc ht hk
  · next c body =>
    have hbody : ∀ w', L.le w w' → L.Comp w' (L.Carries (BodyExposes body))
        (AtomScript.runBlock (evalStmt n s) .null body) := fun w' hle =>
      ih.block (L.here_mono hle hs) fun t ht b hb => hmakes b (.inLoop ht hb)
    refine weaken (runLoop (fun w' hle => ih.condition (L.here_mono hle hs)) hbody)
      fun _ _ _ hflow => hflow.imp ?_
    rintro k ⟨rfl, t, ht, hk⟩
    exact .inLoop ht hk
  · next name params body =>
    refine L.bind L.newIdentity fun w₁ id h₁ _ => ?_
    -- the body is one that the statement defines
    have hf : L.Val w₁ (.function ⟨id, name, params, body, s⟩) :=
      L.val_function.2 ⟨L.here_scope (L.here_mono h₁ hs), hmakes⟩
    refine L.bind (L.declare (L.here_mono h₁ hs) hf) fun w₂ _ h₂ _ => ?_
    exact L.pure (L.val_mono h₂ hf)
  · exact L.pure ⟨L.val_plain rfl, .returning⟩
  · exact L.bind (ih.expr hs) fun _ _ _ hv => L.pure ⟨hv, .returning⟩
  · exact L.pure .breaking
  · exact L.pure .continuing

/-- A call, from the rules with one unit of fuel less. -/
theorem Evaluates.succ_call (ih : L.Evaluates n) {v : Value} {vs : List Value} (hv : L.Val w v)
    (hvs : L.Vals w vs) : L.Comp w L.Val (callValue (n + 1) v vs) := by
  unfold callValue
  split
  · exact L.frame (native hvs fun _ _ _ _ hv hvs => ih.call hv hvs)
  · next f =>
    obtain ⟨hscope, hbody⟩ := L.val_function.1 hv
    refine L.bind checkParams fun w₁ _ h₁ _ => L.frame ?_
    -- the call runs inside the scope that the function was made in, not in that of the caller
    refine L.bind (L.newScope (L.scope_mono h₁ hscope)) fun w₂ s h₂ hs => ?_
    refine L.bind (bindNames hs (hvs.mono (L.le_trans h₁ h₂))) fun w₃ _ h₃ _ => ?_
    refine L.bind (ih.block (L.here_mono h₃ hs) fun t ht b hb => ?_) fun _ _ _ h =>
      callResult (hbody f.body .here) h
    exact hbody b (.inFunction ht hb)
  · next f =>
    refine L.bind checkParams fun w₁ _ h₁ _ => L.frame ?_
    refine L.bind (L.newScope (L.scope_mono h₁ (L.val_lambda.1 hv))) fun w₂ s h₂ hs => ?_
    refine L.bind (bindNames hs (hvs.mono (L.le_trans h₁ h₂))) fun w₃ _ h₃ _ => ?_
    exact ih.expr (L.here_mono h₃ hs)
  · exact fail_after fun _ => rfl

/-- **The rules of the evaluator**, by induction on the fuel. -/
theorem evaluates (L : Logic) (n : Nat) : L.Evaluates n := by
  induction n with
  | zero => exact .zero
  | succ n ih => exact ⟨ih.succ_expr, ih.succ_stmt, ih.succ_call⟩

/-! ### Programs -/

/-- The statement may stand at the top level: its functions may be made, and the signals it exposes
may be reported. -/
structure Admits (L : Logic) (stmt : Stmt) : Prop where
  makes : L.Makes stmt
  reports : ∀ k, stmt.Exposes k → L.Fails k.outside

/-- A statement of a program. A signal that it lets out is an error here. -/
theorem evalTopLevel {s : ScopeId} {stmt : Stmt} (hs : L.Here w s) (hstmt : L.Admits stmt) :
    L.Comp w L.Val (evalTopLevel n s stmt) := by
  unfold AtomScript.evalTopLevel
  refine L.bind ((L.evaluates n).stmt hs hstmt.makes) fun w₁ flow h₁ hflow => ?_
  cases flow with
  | normal v => exact L.pure hflow
  | returning v => exact L.fail (hstmt.reports .returning hflow.2)
  | breaking => exact L.fail (hstmt.reports .breaking hflow)
  | continuing => exact L.fail (hstmt.reports .continuing hflow)

/-- A program, statement by statement, with the values of all of them. -/
theorem evalProgram {s : ScopeId} {p : Program} (hs : L.Here w s)
    (hp : ∀ stmt ∈ p, L.Admits stmt) : L.Comp w L.Vals (evalProgram n s p) :=
  mapAll_vals fun _ stmt hle hstmt => evalTopLevel (L.here_mono hle hs) (hp stmt hstmt)

/-- A program, statement by statement, with the value of the last. -/
theorem evalLast {s : ScopeId} {p : Program} (hs : L.Here w s)
    (hp : ∀ stmt ∈ p, L.Admits stmt) : L.Comp w L.Val (evalLast n s p) :=
  foldAll (fun _ _ stmt hle hstmt _ => evalTopLevel (L.here_mono hle hs) (hp stmt hstmt))
    (L.val_plain rfl)

end Logic

end AtomScript
