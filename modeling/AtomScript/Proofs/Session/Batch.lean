import AtomScript.Proofs.Program.Joined
import AtomScript.Proofs.Session.Reached

/-!
# Texts in one piece and in several

Running a text that is joined of two is running the one and then, unless it fails, the other.  The
three ways of running a text go through the same states, and differ in which of the values they
keep.

* `Eval.foldAll_append` — a list of computations, cut in two;
* `Eval.foldAll_eq_mapAll` — the last result among all of them;
* `Session.run_batch` — both facts, for the texts of a session.
-/

namespace AtomScript

namespace Eval

variable {α β γ : Type}

/-- **A list in two parts** is run part by part. -/
theorem foldAll_append (f : β → α → Eval β) (b : β) (as as' : List α) :
    foldAll f b (as ++ as') = foldAll f b as >>= fun c => foldAll f c as' := by
  induction as generalizing b with
  | nil => rfl
  | cons a as ih =>
    rw [List.cons_append, foldAll, foldAll, bind_assoc]
    simp only [ih]

/-- Where what is carried along is not used, it does not matter how a list starts. -/
theorem foldAll_eq_of_ne_nil (f : α → Eval β) (b b' : β) {as : List α} (h : as ≠ []) :
    foldAll (fun _ => f) b as = foldAll (fun _ => f) b' as := by
  cases as with
  | nil => exact absurd rfl h
  | cons a as => rfl

/-- **Keeping the last result** is gathering all of them and taking the last. -/
theorem foldAll_eq_mapAll (f : α → Eval β) (b : β) (as : List α) :
    foldAll (fun _ => f) b as = mapAll f as >>= fun bs => pure (bs.getLastD b) := by
  induction as generalizing b with
  | nil => rfl
  | cons a as ih =>
    rw [foldAll, mapAll]
    simp only [ih, bind_assoc, pure_bind, List.getLastD_cons]

end Eval

namespace Session

variable {α β : Type}

/-- What comes of a step of a session and, if that has a value, of the next one. -/
def andThen (step : Outcome α × Session) (next : Session → Outcome α × Session) :
    Outcome α × Session :=
  match step with
  | (.value _, s) => next s
  | failed => failed

theorem perform_bind (s : Session) (watch : Option Watch) {x : Eval α} {f : α → Eval α}
    {y : Eval α} (hf : ∀ a, f a = y) :
    s.perform (x >>= f) watch = andThen (s.perform x watch) fun s' => s'.perform y watch := by
  unfold perform andThen
  rcases hx : x ⟨s.limit, watch⟩ s.state with ⟨a | e | _, after⟩
  · rw [Eval.bind_of_value hx, hf]
    rfl
  · rw [Eval.bind_of_error hx]
    rfl
  · rw [Eval.bind_of_exhausted hx]
    rfl

theorem perform_bind_pure (s : Session) (watch : Option Watch) (x : Eval α) (g : α → β) :
    s.perform (x >>= fun a => pure (g a)) watch =
      ((s.perform x watch).1.map g, (s.perform x watch).2) := by
  unfold perform
  rcases hx : x ⟨s.limit, watch⟩ s.state with ⟨a | e | _, after⟩
  · rw [Eval.bind_of_value hx]
    rfl
  · rw [Eval.bind_of_error hx]
    rfl
  · rw [Eval.bind_of_exhausted hx]
    rfl

/-- A program in two parts, of which the second is not empty. -/
theorem perform_evalLast_append (s : Session) (fuel : Nat) (watch : Option Watch)
    (p₁ : Program) {p₂ : Program} (hp₂ : p₂ ≠ []) :
    s.perform (evalLast fuel globalScope (p₁ ++ p₂)) watch =
      andThen (s.perform (evalLast fuel globalScope p₁) watch) fun s' =>
        s'.perform (evalLast fuel globalScope p₂) watch := by
  unfold evalLast
  rw [Eval.foldAll_append]
  exact perform_bind s watch fun v => Eval.foldAll_eq_of_ne_nil _ v .null hp₂

/-- The last value among those of all statements. -/
theorem run_eq_runStatements (s : Session) (fuel : Nat) (source : String) (watch : Option Watch) :
    s.run fuel source watch =
      ((s.runStatements fuel source watch).1.map (·.getLastD .null),
        (s.runStatements fuel source watch).2) := by
  unfold run runStatements
  cases Program.parse source with
  | error e => rfl
  | ok p =>
    dsimp only
    rw [← perform_bind_pure]
    unfold evalLast evalProgram
    rw [Eval.foldAll_eq_mapAll]

/-- **Texts in one piece and in several.**  Two programs with a semicolon between them are read one
after the other, and run one after the other: the second from the session that the first leaves,
and not at all when the first fails.  And in whichever way a text is run, it leaves the same session
with the same error; the value of a run is the last of those of its statements, and the values of a
line are those that are not null. -/
theorem run_batch (s : Session) (fuel : Nat) (watch : Option Watch) :
    (∀ s₁ s₂ p₁ p₂, Program.parse s₁ = .ok p₁ → Program.parse s₂ = .ok p₂ → p₂ ≠ [] →
      Program.parse (s₁ ++ "\n;\n" ++ s₂) = .ok (p₁ ++ p₂) ∧
      s.run fuel (s₁ ++ "\n;\n" ++ s₂) watch =
        andThen (s.run fuel s₁ watch) fun s' => s'.run fuel s₂ watch) ∧
    ∀ source,
      s.run fuel source watch =
        ((s.runStatements fuel source watch).1.map (·.getLastD .null),
          (s.runStatements fuel source watch).2) ∧
      s.runLine fuel source watch =
        ((s.runStatements fuel source watch).1.map (·.filter (!·.isNull)),
          (s.runStatements fuel source watch).2) := by
  refine ⟨fun s₁ s₂ p₁ p₂ h₁ h₂ hp₂ => ?_, fun source => ?_⟩
  -- the joined text parses to the joined programs, which run one after the other
  · have hjoined := Program.parse_joined h₁ h₂
    refine ⟨hjoined, ?_⟩
    unfold run
    simp only [hjoined, h₁, h₂]
    exact perform_evalLast_append s fuel watch p₁ hp₂
  · exact ⟨s.run_eq_runStatements fuel source watch, s.runLine_eq fuel source watch⟩

/-- The first text ends in a comment, and the second one starts with a sign. -/
theorem run_batch_comment :
    let s₁ := "x = 1 # one"
    let s₂ := "-x"
    let s := Session.new 8
    (∃ p₁ p₂, Program.parse s₁ = .ok p₁ ∧ Program.parse s₂ = .ok p₂ ∧ p₂.length = 1 ∧
      Program.parse (s₁ ++ "\n;\n" ++ s₂) = .ok (p₁ ++ p₂)) ∧
    s.run 16 (s₁ ++ "\n;\n" ++ s₂) = andThen (s.run 16 s₁) fun s' => s'.run 16 s₂ := by
  intro s₁ s₂ s
  have hok₁ : (Program.parse s₁).isOk = true := by decide +kernel
  have hok₂ : (Program.parse s₂).map List.length = .ok 1 := by decide +kernel
  cases hp₁ : Program.parse s₁ with
  | error e =>
    rw [hp₁] at hok₁
    cases hok₁
  | ok p₁ =>
    cases hp₂ : Program.parse s₂ with
    | error e =>
      rw [hp₂] at hok₂
      cases hok₂
    | ok p₂ =>
      rw [hp₂] at hok₂
      have hlength : p₂.length = 1 := Except.ok.inj hok₂
      have hne : p₂ ≠ [] := List.ne_nil_of_length_pos (by omega)
      obtain ⟨hjoined, hrun⟩ := (run_batch s 16 none).1 s₁ s₂ p₁ p₂ hp₁ hp₂ hne
      exact ⟨⟨p₁, p₂, rfl, rfl, hlength, hjoined⟩, hrun⟩

end Session

end AtomScript
