import AtomScript.Error
import AtomScript.Program.Basic
import Mathlib.Logic.Basic

/-!
# Control signals

`return`, `break` and `continue` send a *signal* up through the statements around them, to the first
construct that takes it: a loop takes `break` and `continue`, a function body takes `return`.  Both
notions of this file are about the text of a program alone.

* `Stmt.Exposes` — the statement holds one that sends the signal, and nothing in the statement takes
  it;
* `Stmt.wellPlaced` — every signal is sent from a place where it is taken.

`Stmt.Exposes.takes` relates the two: what a well-placed statement exposes, the place it stands in
takes.
-/

namespace AtomScript

/-- The signals. -/
inductive Signal where
  | returning
  | breaking
  | continuing
  deriving DecidableEq, Inhabited, Repr

/-- The error when the signal leaves a statement of the top level. -/
def Signal.outside : Signal → Error
  | returning => .returnOutsideFunction
  | breaking => .breakOutsideLoop
  | continuing => .continueOutsideLoop

/-- The error reports a signal that nothing takes. -/
def Error.isStray : Error → Bool
  | returnOutsideFunction | breakOutsideLoop | continueOutsideLoop | loopControlInFunction _ => true
  | _ => false

theorem Error.isStray_iff (e : Error) :
    e.isStray = true ↔ e.category = "UsageError" := by
  cases e <;> simp [isStray, category]

/-- The error is one that evaluating an expression may end in: it neither reports a stray signal nor
is found in the text. -/
def Error.isProper : Error → Bool
  | unrecognized .. | unterminatedString .. | unexpected .. | unknownOperator .. | unclosedMarker ..
  | markerNotExpression .. | notOneExpression => false
  | e => !e.isStray

theorem Error.isProper_iff (e : Error) :
    e.isProper = true ↔ e.isStray = false ∧ e.isSyntaxError = false := by
  cases e <;> simp [isProper, isStray, isSyntaxError, category]

/-! ### Signals that leave a statement -/

/-- The statement holds one that sends the signal: outside any function body, and in the case of
`break` and `continue` outside any loop. -/
inductive Stmt.Exposes : Stmt → Signal → Prop where
  | returning {e : Option Expr} : Exposes (.returning e) .returning
  | breaking : Exposes .breaking .breaking
  | continuing : Exposes .continuing .continuing
  | inClause {clauses : List Clause} {c : Clause} {s : Stmt} {k : Signal} :
    c ∈ clauses → s ∈ c.body → Exposes s k → Exposes (.conditional clauses) k
  | inLoop {condition : Expr} {body : List Stmt} {s : Stmt} :
    s ∈ body → Exposes s .returning → Exposes (.whileLoop condition body) .returning

/-- One of the statements exposes the signal. -/
def BodyExposes (body : List Stmt) (k : Signal) : Prop :=
  ∃ s ∈ body, s.Exposes k

/-! ### Placement -/

/-- What stands around a statement. -/
structure Place where
  /-- A loop, and no function body between it and the statement. -/
  inLoop : Bool
  /-- A function body. -/
  inFunction : Bool
  deriving DecidableEq, Repr

namespace Place

/-- Outside any function and loop. -/
def top : Place := ⟨false, false⟩

/-- Directly in a function body, whatever stands around the function. -/
def function : Place := ⟨false, true⟩

/-- Something around the statement takes the signal. -/
def takes (p : Place) : Signal → Bool
  | .returning => p.inFunction
  | .breaking | .continuing => p.inLoop

end Place

mutual

/-- Every `break` and `continue` in the statement lies in a loop of the same function body, or of
the top level, and every `return` in a function body. -/
def Stmt.wellPlaced (p : Place) : Stmt → Bool
  | .expression _ => true
  | .conditional clauses => Clause.allPlaced p clauses
  | .whileLoop _ body => Stmt.allPlaced { p with inLoop := true } body
  | .define _ _ body => Stmt.allPlaced .function body
  | .returning _ => p.takes .returning
  | .breaking => p.takes .breaking
  | .continuing => p.takes .continuing

def Stmt.allPlaced (p : Place) : List Stmt → Bool
  | [] => true
  | s :: ss => s.wellPlaced p && Stmt.allPlaced p ss

def Clause.allPlaced (p : Place) : List Clause → Bool
  | [] => true
  | .mk _ body _ :: clauses => Stmt.allPlaced p body && Clause.allPlaced p clauses

end

/-- Every signal of the program is sent from a place where it is taken. -/
def Program.WellPlaced (p : Program) : Prop :=
  ∀ s ∈ p, s.wellPlaced .top = true

instance (p : Program) : Decidable p.WellPlaced :=
  inferInstanceAs (Decidable (∀ s ∈ p, s.wellPlaced .top = true))

namespace Stmt

variable {p : Place} {s : Stmt} {k : Signal}

theorem allPlaced_iff {body : List Stmt} :
    allPlaced p body = true ↔ ∀ s ∈ body, s.wellPlaced p = true := by
  induction body with
  | nil => simp [allPlaced]
  | cons s ss ih => simp [allPlaced, ih]

theorem wellPlaced_conditional {clauses : List Clause} :
    (conditional clauses).wellPlaced p = true ↔
      ∀ c ∈ clauses, ∀ s ∈ c.body, s.wellPlaced p = true := by
  rw [wellPlaced]
  induction clauses with
  | nil => simp [Clause.allPlaced]
  | cons c cs ih =>
    obtain ⟨condition, body, isElse⟩ := c
    simp [Clause.allPlaced, ih, allPlaced_iff, Clause.body]

theorem wellPlaced_whileLoop {condition : Expr} {body : List Stmt} :
    (whileLoop condition body).wellPlaced p = true ↔
      ∀ s ∈ body, s.wellPlaced { p with inLoop := true } = true := by
  rw [wellPlaced, allPlaced_iff]

theorem wellPlaced_define {name : String} {params : List String} {body : List Stmt} :
    (define name params body).wellPlaced p = true ↔
      ∀ s ∈ body, s.wellPlaced .function = true := by
  rw [wellPlaced, allPlaced_iff]

/-- **What a well-placed statement exposes is taken** by something around it. -/
theorem Exposes.takes (h : s.Exposes k) (hs : s.wellPlaced p = true) : p.takes k = true := by
  induction h generalizing p with
  | returning => rwa [wellPlaced] at hs
  | breaking => rwa [wellPlaced] at hs
  | continuing => rwa [wellPlaced] at hs
  | inClause hc ht _ ih => exact ih (wellPlaced_conditional.1 hs _ hc _ ht)
  | inLoop ht _ ih =>
    -- a loop takes no `return`, so what takes it inside the loop takes it outside as well
    have hinside := ih (wellPlaced_whileLoop.1 hs _ ht)
    exact hinside

end Stmt

end AtomScript
