import AtomScript.Proofs.Eval.Overflow
import AtomScript.Proofs.Session.Console
import AtomScript.Proofs.Session.Limit

/-!
# Calls are balanced and bounded

A call is counted while it lasts.  Three things are to be said of the count, whatever is evaluated,
from a state in which no more calls are active than the limit allows:

* an evaluation that ends — with a value, a signal or an error, however deep it was raised — leaves
  as many calls active as it found (`levelFamily`);
* at no event, and at no point where a run is broken off, are more calls active than the limit
  allows (`boundedFamily`);
* a call with the right number of arguments is refused exactly when the limit is reached, and then
  nothing has been done for it.

The first two are families of computations.  The third is not, because a family admits all failures.
A refusal is told from an overflow further in by the fuel: with fuel for nothing but the call itself
there is no further in, and the built-in functions raise no overflow of their own
(`Native.shallow_run`).
-/

namespace AtomScript

/-! ### No more calls than the limit allows -/

/-- In the states before and after an event, no more calls are active than given. -/
def Capped (limit : Nat) (_ : Event) (st after : State) : Prop :=
  st.depth ≤ limit ∧ after.depth ≤ limit

namespace Eval

variable {α β : Type} {x : Eval α} {f : α → Eval β}

/-- What a run from the state does to the number of active calls: it ends with as many as it began
with, and has never had more than the limit allows. -/
structure Balanced (x : Eval α) (b : Bounds) (st : State) : Prop where
  /-- Unless the run is broken off, it leaves as many calls active as it found. -/
  level : (x b st).1 ≠ .exhausted → (x b st).2.depth = st.depth
  /-- Wherever the run ends or is broken off, the limit is respected. -/
  bounded : (x b st).2.depth ≤ b.limit
  /-- And so it is at every event. -/
  capped : x.Meets b st (Capped b.limit)

/-- From a state that respects the limit, every event and the last state respect it. -/
def Bounded (x : Eval α) : Prop :=
  ∀ b st, st.depth ≤ b.limit → (x b st).2.depth ≤ b.limit ∧ x.Meets b st (Capped b.limit)

theorem Bounded.bind (hx : x.Bounded)
    (hf : ∀ b st a after, x b st = (.value a, after) → (f a).Bounded) : (x >>= f).Bounded := by
  intro b st hst
  obtain ⟨hdepth, hmeets⟩ := hx b st hst
  unfold Meets at hmeets ⊢
  -- the watched run of the first computation ends as the unwatched one does
  rcases h : x b st with ⟨a | e | _, mid⟩ <;> rw [h] at hdepth hmeets
  · rw [bind_of_value h, bind_of_value hmeets]
    exact hf b st a mid h b mid hdepth
  · rw [bind_of_error h, bind_of_error hmeets]
    exact ⟨hdepth, rfl⟩
  · rw [bind_of_exhausted h, bind_of_exhausted hmeets]
    exact ⟨hdepth, rfl⟩

theorem bounded_act {event : Event} {g : State → Ending α × State}
    (hg : ∀ st, (g st).2.depth = st.depth) : (act event g).Bounded := by
  -- a depth under the limit is under it before and after, since the step leaves it
  intro b st hst
  have hdepth : (g st).2.depth ≤ b.limit := (hg st).symm ▸ hst
  unfold Meets
  rcases h : g st with ⟨a | e | _, after⟩ <;> rw [h] at hdepth
  · rw [act_of_value h, act_of_value h]
    by_cases hp : b.permits event st after = true
    · rw [if_pos hp, if_pos (Bounds.permits_guarded.2 ⟨hp, hst, hdepth⟩)]
      exact ⟨hdepth, rfl⟩
    · rw [if_neg hp, if_neg fun hw => hp (Bounds.permits_guarded.1 hw).1]
      exact ⟨hst, rfl⟩
  · rw [act_of_error h, act_of_error h]
    exact ⟨hdepth, rfl⟩
  · rw [act_of_exhausted h, act_of_exhausted h]
    exact ⟨hdepth, rfl⟩

/-- The body of a call runs with one more call active, which the limit has room for. -/
theorem Bounded.frame (hx : x.Bounded) : (Eval.frame x).Bounded := by
  intro b st hst
  unfold Meets
  -- the body starts one deeper, and on the way out the depth goes down again
  by_cases hle : st.depth + 1 ≤ b.limit
  · obtain ⟨hdepth, hmeets⟩ := hx b { st with depth := st.depth + 1 } hle
    have hle' : st.depth + 1 ≤ (b.guarded (Capped b.limit)).limit := hle
    unfold Meets at hmeets
    rcases h : x b { st with depth := st.depth + 1 } with ⟨a | e | _, after⟩ <;>
      rw [h] at hdepth hmeets
    · rw [frame_of_value hle h, frame_of_value hle' hmeets]
      exact ⟨Nat.le_trans (Nat.sub_le _ 1) hdepth, rfl⟩
    · rw [frame_of_error hle h, frame_of_error hle' hmeets]
      exact ⟨Nat.le_trans (Nat.sub_le _ 1) hdepth, rfl⟩
    · rw [frame_of_exhausted hle h, frame_of_exhausted hle' hmeets]
      exact ⟨hdepth, rfl⟩
  · have hlt : b.limit < st.depth + 1 := Nat.lt_of_not_le hle
    have hlt' : (b.guarded (Capped b.limit)).limit < st.depth + 1 := hlt
    rw [frame_of_lt hlt, frame_of_lt hlt']
    exact ⟨hst, rfl⟩

end Eval

/-- The computations that respect the limit throughout. -/
def boundedFamily : Family where
  Has x := x.Bounded
  pure _ _ hst := ⟨hst, rfl⟩
  bind := Eval.Bounded.bind
  fail _ _ _ hst := ⟨hst, rfl⟩
  exhausted _ _ hst := ⟨hst, rfl⟩
  reading _ _ hst := ⟨hst, rfl⟩
  act hdepth _ := Eval.bounded_act hdepth
  frame := Eval.Bounded.frame

theorem Eval.balanced_of_has {α : Type} {x : Eval α} (hlevel : levelFamily.Has x)
    (hbounded : boundedFamily.Has x) {b : Bounds} {st : State} (hst : st.depth ≤ b.limit) :
    x.Balanced b st :=
  ⟨hlevel b st, (hbounded b st hst).1, (hbounded b st hst).2⟩

/-! ### Calls that are refused -/

/-- The value can be called with the arguments: a function of the program has one parameter for
each.  A built-in function counts its arguments itself, as part of the call. -/
def Value.Takes (args : List Value) : Value → Prop
  | .native _ => True
  | .function f => f.params.length = args.length
  | .lambda f => f.params.length = args.length
  | _ => False

/-- What is done for a call that is not refused. -/
def Value.body (n : Nat) (args : List Value) : Value → Eval Value
  | .native f => f.run (callValue n) args
  | .function f => do
    let s ← Eval.newScope f.scope
    bindNames s f.params args
    callResult f.name (← runBlock (evalStmt n s) .null f.body)
  | .lambda f => do
    let s ← Eval.newScope f.scope
    bindNames s f.params args
    evalExpr n s f.body
  | v => do Eval.fail (.notCallable (← Eval.inspect v) v.kind)

section Refusal

open Eval

variable {v : Value} {args : List Value} {b : Bounds} {st : State}

theorem checkArity_eq_pure {callee : String} {params : List String}
    (h : params.length = args.length) : checkArity callee params args = pure () := by
  unfold checkArity
  rw [if_pos h]

/-- **A call with the right number of arguments** is one frame around what is done for it. -/
theorem callValue_of_takes (h : v.Takes args) (n : Nat) :
    callValue (n + 1) v args = frame (v.body n args) := by
  cases v with
  | native f => rfl
  | function f =>
    rw [callValue, checkArity_eq_pure h]
    rfl
  | lambda f =>
    rw [callValue, checkArity_eq_pure h]
    rfl
  | _ => exact h.elim

/-- Without fuel for anything inside it, a call does not overflow once it has begun. -/
theorem shallow_body_zero : (v.body 0 args).Shallow := by
  -- without fuel a native function can only fail or be exhausted in what it calls back
  cases v with
  | native f =>
    refine Native.shallow_run fun u us => ?_
    unfold callValue
    exact shallow_exhausted
  | function f =>
    refine (shallow_newScope _).bind fun s => (shallow_bindNames s _ _).bind fun _ => ?_
    exact (shallow_runBlock_zero s _ _).bind (shallow_callResult _)
  | lambda f =>
    refine (shallow_newScope _).bind fun s => (shallow_bindNames s _ _).bind fun _ => ?_
    unfold evalExpr
    exact shallow_exhausted
  | _ => exact shallow_fail_after fun _ _ h => by cases h

/-- **A call is refused exactly when the limit is reached.**  The refusal is the same whatever fuel
and whatever watch the call is given: nothing has been evaluated, and no event has taken place. -/
theorem refused_iff (hv : v.Takes args) (hst : st.depth ≤ b.limit) :
    (∀ n, callValue (n + 1) v args b st = (.error (.stackOverflow b.limit), st)) ↔
      st.depth = b.limit := by
  constructor
  · intro hrefused
    refine Nat.le_antisymm hst (Nat.le_of_not_lt fun hlt => ?_)
    have hzero := hrefused 0
    rw [callValue_of_takes hv] at hzero
    exact frame_ne_overflow shallow_body_zero hlt b.limit (congrArg Prod.fst hzero)
  · intro hfull n
    rw [callValue_of_takes hv, frame_of_lt (by omega)]

/-- A call that is not refused is done with one more call active. -/
theorem callValue_of_lt (hv : v.Takes args) (hlt : st.depth < b.limit) (n : Nat) :
    (callValue (n + 1) v args b st).1 =
      (v.body n args b { st with depth := st.depth + 1 }).1 := by
  rw [callValue_of_takes hv]
  rcases h : v.body n args b { st with depth := st.depth + 1 } with ⟨a | e | _, after⟩
  · rw [frame_of_value hlt h]
  · rw [frame_of_error hlt h]
  · rw [frame_of_exhausted hlt h]

end Refusal

/-- **Calls are balanced and bounded.**  Let no more calls be active than the limit allows.  Then
whatever is evaluated — an expression, a statement, a body, a call — leaves as many calls active as
it found when it ends in any way, and never exceeds the limit on the way.  A call that has the right
number of arguments is refused exactly when the limit is reached, before anything is done for it;
otherwise it is done with one more call active.  So every step of a session that ends, begins and
ends with no call active. -/
theorem calls_balanced (b : Bounds) (st : State) (hst : st.depth ≤ b.limit) :
    (∀ n s, (∀ e, (evalExpr n s e).Balanced b st) ∧
      (∀ stmt, (evalStmt n s stmt).Balanced b st) ∧
      ∀ body, (evalBlock n s body).Balanced b st) ∧
    (∀ n v args, (callValue n v args).Balanced b st) ∧
    (∀ v args, Value.Takes args v →
      ((∀ n, callValue (n + 1) v args b st = (.error (.stackOverflow b.limit), st)) ↔
        st.depth = b.limit) ∧
      (st.depth < b.limit → ∀ n, (callValue (n + 1) v args b st).1 =
        (v.body n args b { st with depth := st.depth + 1 }).1)) ∧
    ∀ limit steps,
      (∀ a ∈ Session.console.answers (Session.new limit) steps, a.ended = true) →
      (Session.console.after (Session.new limit) steps).state.depth = 0 := by
  -- both families, of levels and of bounds, hold of the whole evaluator
  have balanced {α : Type} (x : Eval α) (h : ∀ F : Family, F.Has x) : x.Balanced b st :=
    Eval.balanced_of_has (h levelFamily) (h boundedFamily) hst
  refine ⟨fun n s => ⟨fun e => ?_, fun stmt => ?_, fun body => ?_⟩, fun n v args => ?_,
    fun v args hv => ⟨refused_iff hv hst, callValue_of_lt hv⟩, fun limit steps hended => ?_⟩
  · exact balanced _ fun F => F.has_evalExpr n s e
  · exact balanced _ fun F => F.has_evalStmt n s stmt
  · exact balanced _ fun F => F.has_evalBlock n s body
  · exact balanced _ fun F => F.has_callValue n v args
  · exact ((Session.Idle.new limit).after hended).depth

/-- Under a limit of three, a function that calls itself for ever and a callback that does so end
with an overflow, and the session goes on with no call active.  With three calls active, even
`print` is refused. -/
theorem calls_balanced_overflow :
    let text := "def f(n) do return f(n + 1) end f(0)"
    let steps := [Step.run 40 text, .run 40 "Enum.map([1, 2], f)", .run 40 "len([1])"]
    let st := { State.initial with depth := 3 }
    ((Session.new 3).run 40 text).1.overflows = true ∧
      st.depth ≤ (⟨3, none⟩ : Bounds).limit ∧
      (Session.console.after (Session.new 3) steps).state.depth = 0 ∧
      callValue 1 (.native .print) [] ⟨3, none⟩ st = (.error (.stackOverflow 3), st) := by
  have h := calls_balanced ⟨3, none⟩ { State.initial with depth := 3 } (by decide)
  refine ⟨by decide +kernel, by decide, h.2.2.2 3 _ ?_, ?_⟩
  · decide +kernel
  · exact ((h.2.2.1 (.native .print) [] trivial).1.2 rfl) 0

end AtomScript
