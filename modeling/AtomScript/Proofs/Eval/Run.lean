import AtomScript.Session
import Mathlib.Logic.Basic

/-!
# Runs and watches

Equations for running a computation, and the vocabulary in which statements about the *course* of a
run are made.

A watch is shown every event of a run.  `Bounds.guarded S` adds a watch that objects to the events
which violate `S`; if the run goes the same way with and without it, it never had to object:

* `Eval.Meets x b st S` — every event of the run of `x` from `st` satisfies `S`;
* `Bounds.Within b S` — the bounds `b` let pass only events that satisfy `S`.

The first is what a run guarantees, the second what it may rely on.
-/

namespace AtomScript

/-! ### Bounds -/

namespace Bounds

/-- The bounds have no objection to the event. -/
def permits (b : Bounds) (event : Event) (st after : State) : Bool :=
  match b.watch with
  | none => true
  | some watch => watch event st after

/-- The bounds let pass only events that satisfy `S`. -/
def Within (b : Bounds) (S : Event → State → State → Prop) : Prop :=
  ∀ event st after, b.permits event st after = true → S event st after

open Classical in
/-- The same bounds, with an objection to every event that violates `S`. -/
noncomputable def guarded (b : Bounds) (S : Event → State → State → Prop) : Bounds where
  limit := b.limit
  watch := some fun event st after => b.permits event st after && decide (S event st after)

variable {b : Bounds} {S : Event → State → State → Prop} {event : Event} {st after : State}

theorem permits_guarded :
    (b.guarded S).permits event st after = true ↔
      b.permits event st after = true ∧ S event st after := by
  classical
  change (b.permits event st after && _) = true ↔ _
  rw [Bool.and_eq_true, decide_eq_true_iff]

end Bounds

/-! ### Running a computation -/

namespace Eval

variable {α β : Type} {x : Eval α} {f : α → Eval β} {b : Bounds} {st after : State}

/-- Every event of the run of `x` from `st` satisfies `S`: an objection to those that do not would
make no difference. -/
def Meets (x : Eval α) (b : Bounds) (st : State) (S : Event → State → State → Prop) : Prop :=
  x (b.guarded S) st = x b st

theorem pure_apply (a : α) (b : Bounds) (st : State) :
    (pure a : Eval α) b st = (.value a, st) := rfl

theorem bind_of_value {a : α} (h : x b st = (.value a, after)) :
    (x >>= f) b st = f a b after := by
  change Eval.bind x f b st = _
  unfold Eval.bind
  rw [h]

theorem bind_of_error {e : Error} (h : x b st = (.error e, after)) :
    (x >>= f) b st = (.error e, after) := by
  change Eval.bind x f b st = _
  unfold Eval.bind
  rw [h]

theorem bind_of_exhausted (h : x b st = (.exhausted, after)) :
    (x >>= f) b st = (.exhausted, after) := by
  change Eval.bind x f b st = _
  unfold Eval.bind
  rw [h]

/-- What comes of two computations comes of the first and then of the second. -/
theorem exists_of_bind {c : β} (h : (x >>= f) b st = (.value c, after)) :
    ∃ a mid, x b st = (.value a, mid) ∧ f a b mid = (.value c, after) := by
  -- only a value is handed on; the other two endings are the ending of both
  rcases hx : x b st with ⟨a | e | _, mid⟩
  · rw [bind_of_value hx] at h
    exact ⟨a, mid, rfl, h⟩
  · rw [bind_of_error hx] at h
    cases h
  · rw [bind_of_exhausted hx] at h
    cases h

theorem bind_pure (x : Eval α) : (x >>= fun a => pure a) = x := by
  funext b st
  rcases h : x b st with ⟨_ | _ | _, after⟩
  · rw [bind_of_value h]; rfl
  · rw [bind_of_error h]
  · rw [bind_of_exhausted h]

/-- What happens after a computation may be put together in any way. -/
instance : LawfulMonad Eval := by
  refine .mk' Eval (fun x => bind_pure x) (fun a f => rfl) fun x f g => ?_
  funext b st
  rcases hx : x b st with ⟨a | e | _, after⟩
  · rw [bind_of_value hx]
    rcases hf : f a b after with ⟨c | e | _, after'⟩
    · rw [bind_of_value ((bind_of_value hx).trans hf), bind_of_value hf]
    · rw [bind_of_error ((bind_of_value hx).trans hf), bind_of_error hf]
    · rw [bind_of_exhausted ((bind_of_value hx).trans hf), bind_of_exhausted hf]
  · rw [bind_of_error hx, bind_of_error (bind_of_error hx)]
  · rw [bind_of_exhausted hx, bind_of_exhausted (bind_of_exhausted hx)]

/-- **An act that would succeed** is done if the bounds permit the event, and otherwise breaks the
run off. -/
theorem act_of_value {event : Event} {g : State → Ending α × State} {a : α}
    (h : g st = (.value a, after)) :
    act event g b st =
      if b.permits event st after then (.value a, after) else (.exhausted, st) := by
  unfold act Bounds.permits
  -- without a watch everything is permitted
  cases b.watch with
  | none => simp [h]
  | some watch => simp [h]

/-- An act that fails is no event, so the watch is not asked. -/
theorem act_of_error {event : Event} {g : State → Ending α × State} {e : Error}
    (h : g st = (.error e, after)) : act event g b st = (.error e, after) := by
  unfold act
  cases b.watch with
  | none => simp [h]
  | some watch => simp [h]

theorem act_of_exhausted {event : Event} {g : State → Ending α × State}
    (h : g st = (.exhausted, after)) : act event g b st = (.exhausted, after) := by
  unfold act
  cases b.watch with
  | none => simp [h]
  | some watch => simp [h]

/-- A call is refused when the limit of active calls is reached. -/
theorem frame_of_lt (h : b.limit < st.depth + 1) :
    frame x b st = (.error (.stackOverflow b.limit), st) := by
  unfold frame
  rw [if_pos h]

section Frame

variable (hle : st.depth + 1 ≤ b.limit)

include hle

theorem frame_of_value {a : α} (h : x b { st with depth := st.depth + 1 } = (.value a, after)) :
    frame x b st = (.value a, { after with depth := after.depth - 1 }) := by
  unfold frame
  rw [if_neg (by omega), h]

theorem frame_of_error {e : Error}
    (h : x b { st with depth := st.depth + 1 } = (.error e, after)) :
    frame x b st = (.error e, { after with depth := after.depth - 1 }) := by
  unfold frame
  rw [if_neg (by omega), h]

theorem frame_of_exhausted
    (h : x b { st with depth := st.depth + 1 } = (.exhausted, after)) :
    frame x b st = (.exhausted, after) := by
  unfold frame
  rw [if_neg (by omega), h]

end Frame

end Eval

end AtomScript
