import AtomScript.Proofs.Eval.Family
import AtomScript.Proofs.Eval.Regime

/-!
# The sessions that programs lead to

A session is *reached* when it comes of a new one by running texts, whatever they are and however
their runs end.  The runs may be watched, so among the sessions reached are those that a run passes
through.  `Session.Reached S` restricts this to runs whose events all satisfy `S`, and
`Session.ReachedBy P` to texts that are programs with the property `P`.

* `Session.performText` — what the ways of running a text have in common;
* `Session.Brings` — every event of running a text satisfies a condition;
* `Regime.Governs` — programs keep the regime;
* `Regime.Governs.holds`, `Regime.Governs.brings` — what then is true of every session reached.
-/

namespace AtomScript

namespace Session

variable {S : Event → State → State → Prop}

/-- The sessions that come of running texts, in any of the three ways, with events that satisfy
`S`. -/
inductive Reached (S : Event → State → State → Prop) : Session → Prop where
  | new (limit : Nat) (hashing : Hashing := .arrival) : Reached S (Session.new limit hashing)
  | run {s : Session} (fuel : Nat) (source : String) (watch : Option Watch) :
    Reached S s → Bounds.Within ⟨s.limit, watch⟩ S → Reached S (s.run fuel source watch).2
  | runStatements {s : Session} (fuel : Nat) (source : String) (watch : Option Watch) :
    Reached S s → Bounds.Within ⟨s.limit, watch⟩ S →
      Reached S (s.runStatements fuel source watch).2
  | runLine {s : Session} (fuel : Nat) (line : String) (watch : Option Watch) :
    Reached S s → Bounds.Within ⟨s.limit, watch⟩ S → Reached S (s.runLine fuel line watch).2
  | takeOutput {s : Session} : Reached S s → Reached S s.takeOutput.2
  | reset {s : Session} : Reached S s → Reached S s.reset

/-- The sessions that come of running texts, each of which is a program that satisfies `P` or no
program at all. -/
inductive ReachedBy (P : Program → Prop) : Session → Prop where
  | new (limit : Nat) (hashing : Hashing := .arrival) : ReachedBy P (Session.new limit hashing)
  | run {s : Session} {source : String} (fuel : Nat) (watch : Option Watch) :
    ReachedBy P s → (∀ p, Program.parse source = .ok p → P p) →
      ReachedBy P (s.run fuel source watch).2
  | runStatements {s : Session} {source : String} (fuel : Nat) (watch : Option Watch) :
    ReachedBy P s → (∀ p, Program.parse source = .ok p → P p) →
      ReachedBy P (s.runStatements fuel source watch).2
  | runLine {s : Session} {line : String} (fuel : Nat) (watch : Option Watch) :
    ReachedBy P s → (∀ p, Program.parse line = .ok p → P p) →
      ReachedBy P (s.runLine fuel line watch).2
  | takeOutput {s : Session} : ReachedBy P s → ReachedBy P s.takeOutput.2
  | reset {s : Session} : ReachedBy P s → ReachedBy P s.reset

/-- Every event of running the text satisfies `S`, in whichever way it is run. -/
def Brings (s : Session) (fuel : Nat) (source : String) (watch : Option Watch)
    (S : Event → State → State → Prop) : Prop :=
  ∀ p, Program.parse source = .ok p →
    (evalLast fuel globalScope p).Meets ⟨s.limit, watch⟩ s.state S ∧
      (evalProgram fuel globalScope p).Meets ⟨s.limit, watch⟩ s.state S

end Session

/-! ### Running a text -/

namespace Session

variable {α : Type} (s : Session) (fuel : Nat) (source : String) (watch : Option Watch)

/-- Reads a text and runs the computation that is made of it.  The ways of running a text differ in
what they make of it. -/
def performText (x : Program → Eval α) : Outcome α × Session :=
  match Program.parse source with
  | .error e => (.error e, s)
  | .ok p => s.perform (x p) watch

theorem run_eq_performText :
    s.run fuel source watch = s.performText source watch (evalLast fuel globalScope) := rfl

theorem runStatements_eq_performText :
    s.runStatements fuel source watch =
      s.performText source watch (evalProgram fuel globalScope) := rfl

theorem runLine_eq :
    s.runLine fuel source watch =
      ((s.runStatements fuel source watch).1.map (·.filter fun v => !v.isNull),
        (s.runStatements fuel source watch).2) := rfl

end Session

/-! ### Runs that are not broken off -/

/-- Under a watch the computation does what it does without, unless it is broken off. -/
def Eval.IgnoresWatch {α : Type} (x : Eval α) : Prop :=
  ∀ (limit : Nat) (watch : Watch) (st : State), (x ⟨limit, some watch⟩ st).1 ≠ .exhausted →
    x ⟨limit, none⟩ st = x ⟨limit, some watch⟩ st

namespace Eval

variable {α β : Type} {x : Eval α} {f : α → Eval β}

theorem IgnoresWatch.bind (hx : x.IgnoresWatch)
    (hf : ∀ b st a after, x b st = (.value a, after) → (f a).IgnoresWatch) :
    (x >>= f).IgnoresWatch := by
  intro limit watch st hended
  rcases h : x ⟨limit, some watch⟩ st with ⟨a | e | _, after⟩
  · have h' := (hx limit watch st (by simp [h])).trans h
    rw [bind_of_value h] at hended ⊢
    rw [bind_of_value h']
    exact hf _ st a after h limit watch after hended
  · have h' := (hx limit watch st (by simp [h])).trans h
    rw [bind_of_error h, bind_of_error h']
  · rw [bind_of_exhausted h] at hended
    exact absurd rfl hended

/-- An act to which the watch has no objection is done all the same. -/
theorem ignoresWatch_act {event : Event} {g : State → Ending α × State} :
    (act event g).IgnoresWatch := by
  intro limit watch st hended
  rcases h : g st with ⟨a | e | _, after⟩
  · rw [act_of_value h] at hended ⊢
    rw [act_of_value h]
    by_cases hp : (⟨limit, some watch⟩ : Bounds).permits event st after = true
    · rw [if_pos hp]
      rfl
    · rw [if_neg hp] at hended
      exact absurd rfl hended
  · rw [act_of_error h, act_of_error h]
  · rw [act_of_exhausted h, act_of_exhausted h]

theorem IgnoresWatch.frame (hx : x.IgnoresWatch) : (Eval.frame x).IgnoresWatch := by
  intro limit watch st hended
  by_cases hle : st.depth + 1 ≤ limit
  · rcases h : x ⟨limit, some watch⟩ { st with depth := st.depth + 1 } with ⟨a | e | _, after⟩
    · have h' := (hx limit watch _ (by simp [h])).trans h
      rw [frame_of_value hle h, frame_of_value hle h']
    · have h' := (hx limit watch _ (by simp [h])).trans h
      rw [frame_of_error hle h, frame_of_error hle h']
    · rw [frame_of_exhausted hle h] at hended
      exact absurd rfl hended
  · have hlt : ∀ watch, (⟨limit, watch⟩ : Bounds).limit < st.depth + 1 := fun _ =>
      Nat.lt_of_not_le hle
    rw [frame_of_lt (hlt none), frame_of_lt (hlt (some watch))]

end Eval

/-- The computations that ignore the watch. -/
def watchFamily : Family where
  Has x := x.IgnoresWatch
  pure _ _ _ _ := rfl
  bind := Eval.IgnoresWatch.bind
  fail _ _ _ _ _ := rfl
  exhausted _ _ _ _ := rfl
  reading _ _ _ _ := rfl
  act _ _ := Eval.ignoresWatch_act
  frame := Eval.IgnoresWatch.frame

/-- The run was not broken off, nor did its fuel run out. -/
def Outcome.ended {α : Type} : Outcome α → Bool
  | .exhausted => false
  | _ => true

/-- **A run that the watch does not break off** is the run without it. -/
theorem Session.run_eq_of_watched {s : Session} {fuel : Nat} {source : String} {watch : Watch}
    (hended : (s.run fuel source (some watch)).1.ended = true) :
    s.run fuel source = s.run fuel source (some watch) := by
  unfold run at hended ⊢
  cases hp : Program.parse source with
  | error e => rfl
  | ok p =>
    simp only [hp] at hended ⊢
    -- the outcome tells that the run came to an end
    have hsame := watchFamily.has_evalLast fuel globalScope p s.limit watch s.state fun hstop => by
      change (Outcome.ofEnding
        (evalLast fuel globalScope p ⟨s.limit, some watch⟩ s.state).1).ended = true at hended
      rw [hstop] at hended
      cases hended
    unfold perform
    rw [hsame]

namespace Regime

/-- The step lemma: the session after a text is run, in whichever way. -/
theorem inv_performText {R : Regime} {s : Session} {α : Type} {x : Program → Eval α}
    (hx : ∀ w p, R.Comp w (fun _ _ => True) (x p)) (source : String) (watch : Option Watch)
    (hw : Bounds.Within ⟨s.limit, watch⟩ R.Allowed) (hs : ∃ w, R.Inv w s.state) :
    ∃ w, R.Inv w (s.performText source watch x).2.state := by
  obtain ⟨w, hs⟩ := hs
  unfold Session.performText
  cases Program.parse source with
  | error e => exact ⟨w, hs⟩
  | ok p =>
    obtain ⟨-, w', -, hinv, -⟩ := hx w p ⟨s.limit, watch⟩ hw s.state hs
    exact ⟨w', hinv⟩

/-- Programs keep the regime, and a new session satisfies its invariant. -/
structure Governs (R : Regime) : Prop where
  initial : ∀ hashing, ∃ w, R.Holds w (.empty hashing) globalScopes
  evalLast : ∀ w fuel p, R.Comp w (fun _ _ => True) (evalLast fuel globalScope p)
  evalProgram : ∀ w fuel p, R.Comp w (fun _ _ => True) (evalProgram fuel globalScope p)

namespace Governs

variable {R : Regime} (hR : R.Governs) {s : Session}

include hR

/-- **The invariant holds in every session reached.** -/
theorem holds (hs : s.Reached R.Allowed) : ∃ w, R.Inv w s.state := by
  -- by induction on how the session was reached; taking the output changes neither heap nor scopes
  induction hs with
  | new limit hashing => exact hR.initial hashing
  | run fuel source watch _ hw ih =>
    exact inv_performText (fun w p => hR.evalLast w fuel p) source watch hw ih
  | runStatements fuel source watch _ hw ih =>
    exact inv_performText (fun w p => hR.evalProgram w fuel p) source watch hw ih
  | runLine fuel line watch _ hw ih =>
    exact inv_performText (fun w p => hR.evalProgram w fuel p) line watch hw ih
  | takeOutput _ ih => exact ih
  | reset _ _ => exact hR.initial _

/-- **The promise is kept by every event** of a run that starts in a session reached. -/
theorem brings (hs : s.Reached R.Allowed) (fuel : Nat) (source : String) (watch : Option Watch)
    (hw : Bounds.Within ⟨s.limit, watch⟩ R.Allowed) : s.Brings fuel source watch R.Done := by
  intro p _
  obtain ⟨w, hinv⟩ := hR.holds hs
  exact ⟨(hR.evalLast w fuel p _ hw s.state hinv).1,
    (hR.evalProgram w fuel p _ hw s.state hinv).1⟩

end Governs

end Regime

end AtomScript
