import AtomScript.Proofs.Program.Refusal
import AtomScript.Proofs.Session.Reached

/-!
# Errors in the text

A text is read to its end before any of it is run.  An error in the text, or in what a marker of one
of its string literals encloses, so finds the session as it was.

There is one type of errors, and the user tells by the category when an error was found.  That this
is right is shown on either side of the line: lexer and parser fail with errors of two categories
only (`Program.isSyntaxError_of_parse`), and what is found afterwards, by the evaluator, a built-in
function or a callback, is never of one of the two (`laterFamily`).
-/

namespace AtomScript

/-! ### Evaluation -/

/-- The computation fails with no error of the kinds that are found in a text. -/
def Eval.RaisesLater {α : Type} (x : Eval α) : Prop :=
  ∀ (b : Bounds) (st : State) (e : Error), (x b st).1 = .error e → e.isSyntaxError = false

namespace Eval

variable {α β : Type} {x : Eval α} {f : α → Eval β}

/-- An error is passed on as it is. -/
theorem RaisesLater.bind (hx : x.RaisesLater)
    (hf : ∀ b st a after, x b st = (.value a, after) → (f a).RaisesLater) :
    (x >>= f).RaisesLater := by
  intro b st e he
  rcases h : x b st with ⟨a | e' | _, after⟩
  · rw [bind_of_value h] at he
    exact hf b st a after h b after e he
  · rw [bind_of_error h] at he
    cases he
    exact hx b st e (by rw [h])
  · rw [bind_of_exhausted h] at he
    cases he

/-- A watch only breaks off what would have succeeded. -/
theorem raisesLater_act {event : Event} {g : State → Ending α × State}
    (h : ∀ st e, (g st).1 = .error e → e.isSyntaxError = false) :
    (Eval.act event g).RaisesLater := by
  intro b st e he
  rcases hg : g st with ⟨a | e' | _, after⟩
  · rw [act_of_value hg] at he
    split at he
    · cases he
    · cases he
  · rw [act_of_error hg] at he
    exact h st e (by rw [hg]; exact he)
  · rw [act_of_exhausted hg] at he
    cases he

/-- A call that is refused overflows the stack of calls, which is no error in the text. -/
theorem RaisesLater.frame (hx : x.RaisesLater) : (Eval.frame x).RaisesLater := by
  intro b st e he
  by_cases hle : st.depth + 1 ≤ b.limit
  · rcases h : x b { st with depth := st.depth + 1 } with ⟨a | e' | _, after⟩
    · rw [frame_of_value hle h] at he
      cases he
    · rw [frame_of_error hle h] at he
      exact hx b _ e (by rw [h]; exact he)
    · rw [frame_of_exhausted hle h] at he
      cases he
  · rw [frame_of_lt (Nat.lt_of_not_le hle)] at he
    cases he
    rfl

end Eval

/-- The computations that fail with no error of the kinds that are found in a text. -/
def laterFamily : Family where
  Has x := x.RaisesLater
  pure _ _ _ := nofun
  bind := Eval.RaisesLater.bind
  fail he _ _ _ h := Ending.error.inj h ▸ he
  exhausted _ _ _ := nofun
  reading _ _ _ := nofun
  act _ hfails := Eval.raisesLater_act hfails
  frame := Eval.RaisesLater.frame

/-! ### Outcomes -/

namespace Outcome

variable {α β : Type}

/-- The category of the error that the run ended with. -/
def category? : Outcome α → Option String
  | error e => some e.category
  | _ => none

/-- The text was refused. -/
def isSyntaxError : Outcome α → Bool
  | error e => e.isSyntaxError
  | _ => false

theorem category?_map (f : α → β) (o : Outcome α) : (o.map f).category? = o.category? := by
  cases o <;> rfl

theorem isSyntaxError_map (f : α → β) (o : Outcome α) :
    (o.map f).isSyntaxError = o.isSyntaxError := by
  cases o <;> rfl

/-- What a computation ends with is no refusal, unless its error is of the kinds found in a text. -/
theorem isSyntaxError_ofEnding {ending : Ending α}
    (h : ∀ e, ending = .error e → e.isSyntaxError = false) :
    (ofEnding ending).isSyntaxError = false := by
  cases ending with
  | value a => rfl
  | error e => exact h e rfl
  | exhausted => rfl

end Outcome

/-! ### Sessions -/

namespace Session

variable {α : Type} {s : Session} {source : String} {watch : Option Watch} {x : Program → Eval α}

/-- The text that cannot be read leaves the session alone. -/
theorem performText_of_error {e : Error} (h : Program.parse source = .error e) :
    s.performText source watch x = (.error e, s) := by
  unfold performText
  rw [h]

theorem isSyntaxError_performText (hx : ∀ p, (x p).RaisesLater) :
    (s.performText source watch x).1.isSyntaxError = true ↔
      ∃ e, Program.parse source = .error e := by
  unfold performText
  cases hp : Program.parse source with
  | error e => exact iff_of_true (Program.isSyntaxError_of_parse hp) ⟨e, rfl⟩
  | ok p =>
    -- the text parses, so what is reported is whatever the program itself ends with
    have hended : (s.perform (x p) watch).1.isSyntaxError = false :=
      Outcome.isSyntaxError_ofEnding (hx p ⟨s.limit, watch⟩ s.state)
    simp [hended]

/-- **Syntax errors are the errors of reading, and have no effect.**  A text is refused, in
whichever way it is run, when it cannot be read; the outcome is then the error of reading it, which
is a syntax error, and the session is the one before.  Evaluating an expression or a statement,
calling a value, running a whole program, or running a built-in function never ends with such an
error, provided that the callbacks of the function do not. -/
theorem isSyntaxError_iff_parse_error (s : Session) (fuel : Nat) (source : String)
    (watch : Option Watch) :
    ((s.run fuel source watch).1.isSyntaxError = true ↔ ∃ e, Program.parse source = .error e) ∧
    ((s.runStatements fuel source watch).1.isSyntaxError = true ↔
      ∃ e, Program.parse source = .error e) ∧
    ((s.runLine fuel source watch).1.isSyntaxError = true ↔
      ∃ e, Program.parse source = .error e) ∧
    (∀ e, Program.parse source = .error e →
      e.isSyntaxError = true ∧
      s.run fuel source watch = (.error e, s) ∧
      s.runStatements fuel source watch = (.error e, s) ∧
      s.runLine fuel source watch = (.error e, s)) ∧
    (∀ n i,
      (∀ e, (evalExpr n i e).RaisesLater) ∧
      (∀ stmt, (evalStmt n i stmt).RaisesLater) ∧
      (∀ v vs, (callValue n v vs).RaisesLater) ∧
      (∀ p, (evalProgram n i p).RaisesLater) ∧
      (∀ (f : Native) vs, (f.run (callValue n) vs).RaisesLater)) ∧
    (∀ (f : Native) call vs, (∀ v us, (call v us).RaisesLater) → (f.run call vs).RaisesLater) := by
  refine ⟨?_, ?_, ?_, fun e he => ⟨Program.isSyntaxError_of_parse he, ?_, ?_, ?_⟩,
    fun n i => ⟨?_, ?_, ?_, ?_, ?_⟩, fun f call vs hcall => laterFamily.has_native hcall f vs⟩
  -- the three entry points differ in what they answer with, not in where errors come from
  · rw [run_eq_performText]
    exact isSyntaxError_performText (laterFamily.has_evalLast fuel globalScope)
  · rw [runStatements_eq_performText]
    exact isSyntaxError_performText (laterFamily.has_evalProgram fuel globalScope)
  · rw [runLine_eq, Outcome.isSyntaxError_map, runStatements_eq_performText]
    exact isSyntaxError_performText (laterFamily.has_evalProgram fuel globalScope)
  · rw [run_eq_performText, performText_of_error he]
  · rw [runStatements_eq_performText, performText_of_error he]
  · rw [runLine_eq, runStatements_eq_performText, performText_of_error he]
    rfl
  · exact laterFamily.has_evalExpr n i
  · exact laterFamily.has_evalStmt n i
  · exact laterFamily.has_callValue n
  · exact laterFamily.has_evalProgram n i
  · exact laterFamily.has_native (laterFamily.has_callValue n)

/-- A marker encloses no expression, so the assignment before it is not made. -/
theorem isSyntaxError_iff_parse_error_marker :
    let s := ((Session.new 8).run 40 "x = :kept").2
    let text := "x = :lost; \"#\x7b1 +\x7d\""
    (s.run 40 text).1.isSyntaxError = true ∧ (s.run 40 text).2 = s ∧
      ((s.run 40 text).2.run 40 "x").1.isSyntaxError = false := by
  intro s text
  have hrefused : (s.run 40 text).1.isSyntaxError = true := by decide +kernel
  obtain ⟨hrun, -, -, herror, -⟩ := isSyntaxError_iff_parse_error s 40 text none
  obtain ⟨e, he⟩ := hrun.1 hrefused
  have hsame : (s.run 40 text).2 = s := by rw [(herror e he).2.1]
  refine ⟨hrefused, hsame, ?_⟩
  rw [hsame]
  decide +kernel

end Session

end AtomScript
