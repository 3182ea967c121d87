import AtomScript.Proofs.Eval.Family

/-!
# The limit on active calls

Only a stack overflow tells a program how many calls may be active.  A computation that ends under
one limit in any other way — with a value, with another error, or broken off — goes exactly the same
way under every larger limit (`limitFamily`), because the limit is read in one place, `Eval.frame`,
and there it decides between the overflow and going on.  No construct of the language catches an
error, so an overflow anywhere inside a run is how the whole run ends, and a run that does not end
so has met none.

* `Session.agrees_withLimit` — the runs of a text under two limits.
-/

namespace AtomScript

/-- The outcome is that the limit of active calls was reached. -/
def Outcome.overflows {α : Type} : Outcome α → Bool
  | .error (.stackOverflow _) => true
  | _ => false

/-- The same session under another limit. -/
def Session.withLimit (s : Session) (d : Nat) : Session := { s with limit := d }

/-- The computation goes the same way under a larger limit, unless it overflows. -/
def Eval.IgnoresLimit {α : Type} (x : Eval α) : Prop :=
  ∀ (b : Bounds) (d : Nat) (st : State), b.limit ≤ d →
    (∀ l, (x b st).1 ≠ .error (.stackOverflow l)) → x { b with limit := d } st = x b st

namespace Eval

variable {α β : Type} {x : Eval α} {f : α → Eval β}

theorem IgnoresLimit.bind (hx : x.IgnoresLimit)
    (hf : ∀ b st a after, x b st = (.value a, after) → (f a).IgnoresLimit) :
    (x >>= f).IgnoresLimit := by
  intro b d st hd hover
  -- an overflow of the first computation would be one of both, so the first did not overflow
  rcases h : x b st with ⟨a | e | _, after⟩
  · have h' : x { b with limit := d } st = (.value a, after) := by
      rw [hx b d st hd (by simp [h]), h]
    rw [bind_of_value h] at hover ⊢
    rw [bind_of_value h']
    exact hf b st a after h b d after hd hover
  · rw [bind_of_error h] at hover ⊢
    have h' : x { b with limit := d } st = (.error e, after) := by
      rw [hx b d st hd (by simpa [h] using hover), h]
    rw [bind_of_error h']
  · have h' : x { b with limit := d } st = (.exhausted, after) := by
      rw [hx b d st hd (by simp [h]), h]
    rw [bind_of_exhausted h, bind_of_exhausted h']

/-- The one place where the limit is read: if the call is not refused under the smaller limit, it is
not under the larger one, and its body overflows only if the call does. -/
theorem IgnoresLimit.frame (hx : x.IgnoresLimit) : (Eval.frame x).IgnoresLimit := by
  intro b d st hd hover
  by_cases hle : st.depth + 1 ≤ b.limit
  · have hle' : st.depth + 1 ≤ { b with limit := d : Bounds }.limit := Nat.le_trans hle hd
    rcases h : x b { st with depth := st.depth + 1 } with ⟨a | e | _, after⟩
    · have h' := hx b d { st with depth := st.depth + 1 } hd (by simp [h])
      rw [frame_of_value hle h, frame_of_value hle' (h'.trans h)]
    · rw [frame_of_error hle h] at hover ⊢
      have h' := hx b d { st with depth := st.depth + 1 } hd (by simpa [h] using hover)
      rw [frame_of_error hle' (h'.trans h)]
    · have h' := hx b d { st with depth := st.depth + 1 } hd (by simp [h])
      rw [frame_of_exhausted hle h, frame_of_exhausted hle' (h'.trans h)]
  · rw [frame_of_lt (by omega)] at hover
    exact absurd rfl (hover b.limit)

end Eval

/-- The computations that ignore the limit. -/
def limitFamily : Family where
  Has x := x.IgnoresLimit
  pure _ _ _ _ _ := rfl
  bind := Eval.IgnoresLimit.bind
  fail _ _ _ _ _ _ := rfl
  exhausted _ _ _ _ _ := rfl
  reading _ _ _ _ _ := rfl
  act _ _ _ _ _ _ _ := rfl
  frame := Eval.IgnoresLimit.frame

namespace Session

variable {α : Type} {s : Session} {d : Nat} {watch : Option Watch}

theorem perform_withLimit {x : Eval α} (hx : x.IgnoresLimit) (hd : s.limit ≤ d)
    (h : (s.perform x watch).1.overflows = false) :
    (s.withLimit d).perform x watch =
      ((s.perform x watch).1, (s.perform x watch).2.withLimit d) := by
  -- the bounds of the two runs differ in the limit alone
  have hrun : x ⟨d, watch⟩ s.state = x ⟨s.limit, watch⟩ s.state := by
    refine hx ⟨s.limit, watch⟩ d s.state hd fun l hl => ?_
    change (Outcome.ofEnding (x ⟨s.limit, watch⟩ s.state).1).overflows = false at h
    rw [hl] at h
    exact absurd h (by simp [Outcome.ofEnding, Outcome.overflows])
  change (Outcome.ofEnding (x ⟨d, watch⟩ s.state).1, Session.mk d (x ⟨d, watch⟩ s.state).2) = _
  rw [hrun]
  rfl

theorem run_withLimit {fuel : Nat} {source : String} (hd : s.limit ≤ d)
    (h : (s.run fuel source watch).1.overflows = false) :
    (s.withLimit d).run fuel source watch =
      ((s.run fuel source watch).1, (s.run fuel source watch).2.withLimit d) := by
  unfold run at h ⊢
  cases hp : Program.parse source with
  | error e => rfl
  | ok p =>
    -- whether the text can be read has nothing to do with the limit
    simp only [hp] at h ⊢
    exact perform_withLimit (limitFamily.has_evalLast fuel globalScope p) hd h

theorem runStatements_withLimit {fuel : Nat} {source : String} (hd : s.limit ≤ d)
    (h : (s.runStatements fuel source watch).1.overflows = false) :
    (s.withLimit d).runStatements fuel source watch =
      ((s.runStatements fuel source watch).1,
        (s.runStatements fuel source watch).2.withLimit d) := by
  unfold runStatements at h ⊢
  cases hp : Program.parse source with
  | error e => rfl
  | ok p =>
    simp only [hp] at h ⊢
    exact perform_withLimit (limitFamily.has_evalProgram fuel globalScope p) hd h

/-- Leaving out the values that are not shown neither makes nor hides an overflow. -/
theorem overflows_map {β : Type} {f : α → β} {o : Outcome α} :
    (o.map f).overflows = o.overflows := by
  cases o with
  | value a => rfl
  | exhausted => rfl
  | error e => cases e <;> rfl

theorem runLine_withLimit {fuel : Nat} {line : String} (hd : s.limit ≤ d)
    (h : (s.runLine fuel line watch).1.overflows = false) :
    (s.withLimit d).runLine fuel line watch =
      ((s.runLine fuel line watch).1, (s.runLine fuel line watch).2.withLimit d) := by
  unfold runLine at h ⊢
  rw [overflows_map] at h
  rw [runStatements_withLimit hd h]

/-- **The limit shows only in overflows.**  Let a text be run in a session, in any of the three
ways, watched or not, and let the outcome not be an overflow.  Under any larger limit the same fuel
then leads to the same outcome and to the same state: heap, scopes, active calls and output. -/
theorem agrees_withLimit (s : Session) (d : Nat) (hd : s.limit ≤ d) (fuel : Nat)
    (source : String) (watch : Option Watch) :
    ((s.run fuel source watch).1.overflows = false →
      (s.withLimit d).run fuel source watch =
        ((s.run fuel source watch).1, (s.run fuel source watch).2.withLimit d)) ∧
    ((s.runStatements fuel source watch).1.overflows = false →
      (s.withLimit d).runStatements fuel source watch =
        ((s.runStatements fuel source watch).1,
          (s.runStatements fuel source watch).2.withLimit d)) ∧
    ((s.runLine fuel source watch).1.overflows = false →
      (s.withLimit d).runLine fuel source watch =
        ((s.runLine fuel source watch).1, (s.runLine fuel source watch).2.withLimit d)) :=
  ⟨run_withLimit hd, runStatements_withLimit hd, runLine_withLimit hd⟩

/-- Three calls of a function inside each other are all that the limit of three allows. -/
theorem agrees_withLimit_countdown :
    let text := "def f(n) do if n == 0 do return :done end; return f(n - 1) end f(2)"
    ((Session.new 3).run 40 text).1.overflows = false ∧
      (Session.new 4096).run 40 text =
        (((Session.new 3).run 40 text).1, ((Session.new 3).run 40 text).2.withLimit 4096) :=
  ⟨by decide +kernel,
    (agrees_withLimit (Session.new 3) 4096 (by decide) 40 _ none).1 (by decide +kernel)⟩

end Session

end AtomScript
