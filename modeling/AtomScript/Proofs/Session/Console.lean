import AtomScript.Proofs.Heap.Shift
import AtomScript.Proofs.Session.Reached

/-!
# Steps of a session and their answers

Whoever uses a session runs texts, asks for bindings and resets it, and sees of all this the
answers: kinds and texts of values, errors, what is printed, and listings.  `Console.answers` is
what there is to see of a list of steps, for anything that offers the operations of a session.

In which order maps are gone through is decided at random, and can be seen: of a key in which
several aggregates contain themselves, the one that is come to first is reported.  So a step that
runs a text brings the order with it, as the `Hashing` that the maps have for as long as it lasts.
Since a run ends with the first such report, every way in which the run could go is the way that it
goes under some hashing.

* `Console.answers_eq_of_follows` — a relation that every step keeps, with the same answer on both
  sides, makes the answers to all lists of steps the same;
* `Console.shows_iff_of_behind` — if maps are gone through in the same order at a distance, the two
  have the same answers to show;
* `Session.Idle.after` — after steps that end, no calls are active;
* `Session.Idle.reset_eq_new` — so that only heap, scopes and functions are left to be forgotten.
-/

namespace AtomScript

/-- What may be done with a session.  A step that runs a text brings its own fuel, and the order in
which maps are gone through meanwhile. -/
inductive Step where
  | run (fuel : Nat) (source : String) (hashing : Hashing := .arrival)
  | runStatements (fuel : Nat) (source : String) (hashing : Hashing := .arrival)
  | runLine (fuel : Nat) (line : String) (hashing : Hashing := .arrival)
  | localBindings
  | allBindings
  | reset

namespace Step

/-- The step as it is seen from behind `n` cells: maps that come after them are gone through in the
same order. -/
def behind (n : Nat) : Step → Step
  | run fuel source hashing => run fuel source (hashing.behind n)
  | runStatements fuel source hashing => runStatements fuel source (hashing.behind n)
  | runLine fuel line hashing => runLine fuel line (hashing.behind n)
  | x => x

/-- The step without the order in which maps are gone through. -/
def unhashed : Step → Step
  | run fuel source _ => run fuel source
  | runStatements fuel source _ => runStatements fuel source
  | runLine fuel line _ => runLine fuel line
  | x => x

theorem unhashed_behind (n : Nat) (x : Step) : (x.behind n).unhashed = x.unhashed := by
  cases x <;> rfl

/-- Behind `n` cells any order is possible. -/
theorem behind_surjective (n : Nat) : Function.Surjective (behind n) := by
  intro x
  have hback : ∀ f : Hashing, Hashing.behind n (fun r => f (r - n)) = f := fun f => by
    funext r
    exact congrArg f (Nat.add_sub_cancel_left n r)
  cases x with
  -- a hashing is seen from before when it is asked about later cells
  | run fuel source f =>
    exact ⟨.run fuel source fun r => f (r - n), congrArg (run fuel source ·) (hback f)⟩
  | runStatements fuel source f =>
    exact ⟨.runStatements fuel source fun r => f (r - n),
      congrArg (runStatements fuel source ·) (hback f)⟩
  | runLine fuel line f =>
    exact ⟨.runLine fuel line fun r => f (r - n), congrArg (runLine fuel line ·) (hback f)⟩
  | localBindings => exact ⟨.localBindings, rfl⟩
  | allBindings => exact ⟨.allBindings, rfl⟩
  | reset => exact ⟨.reset, rfl⟩

end Step

/-- What is seen of a step.  Of a value these are its kind and its text. -/
inductive Answer where
  | ran (values : Outcome (List (Kind × String))) (printed : List Printed)
  | listed (bindings : List (String × Kind × String))
  | done
  deriving DecidableEq

/-- The step was not broken off for want of fuel. -/
def Answer.ended : Answer → Bool
  | ran values _ => values.ended
  | _ => true

namespace Outcome

variable {α β γ : Type}

theorem ended_map {f : α → β} (o : Outcome α) : (o.map f).ended = o.ended := by
  cases o <;> rfl

theorem map_map (f : α → β) (g : β → γ) (o : Outcome α) : (o.map f).map g = o.map (g ∘ f) := by
  cases o <;> rfl

end Outcome

/-- The operations of a session, on states of any kind. -/
structure Console (S : Type) where
  run : S → Nat → String → Outcome Value × S
  runStatements : S → Nat → String → Outcome (List Value) × S
  runLine : S → Nat → String → Outcome (List Value) × S
  localBindings : S → List (String × Value)
  allBindings : S → List (String × Value)
  inspect : S → Value → String
  takeOutput : S → List Printed × S
  reset : S → S
  /-- Has maps gone through in another order from now on. -/
  rehash : S → Hashing → S

namespace Console

variable {S S' α : Type} (c : Console S) (c' : Console S')

def describe (s : S) (v : Value) : Kind × String := (v.kind, c.inspect s v)

/-- What is seen of a run: its values as they are when it is over, and what it has printed. -/
def report (values : α → List Value) (result : Outcome α × S) : Answer × S :=
  (.ran (result.1.map fun a => (values a).map (c.describe result.2)) (c.takeOutput result.2).1,
    (c.takeOutput result.2).2)

def list (bindings : List (String × Value)) (s : S) : Answer × S :=
  (.listed (bindings.map fun b => (b.1, c.describe s b.2)), s)

/-- One step: what is seen of it, and the state after it. -/
def step (s : S) : Step → Answer × S
  | .run fuel source f => c.report (fun v => [v]) (c.run (c.rehash s f) fuel source)
  | .runStatements fuel source f => c.report id (c.runStatements (c.rehash s f) fuel source)
  | .runLine fuel line f => c.report id (c.runLine (c.rehash s f) fuel line)
  | .localBindings => c.list (c.localBindings s) s
  | .allBindings => c.list (c.allBindings s) s
  | .reset => (.done, c.reset s)

/-- The state after the steps. -/
def after (s : S) (steps : List Step) : S :=
  steps.foldl (fun s x => (c.step s x).2) s

/-- What is seen of the steps. -/
def answers (s : S) : List Step → List Answer
  | [] => []
  | x :: steps => (c.step s x).1 :: answers (c.step s x).2 steps

theorem answers_append (s : S) (before steps : List Step) :
    c.answers s (before ++ steps) = c.answers s before ++ c.answers (c.after s before) steps := by
  induction before generalizing s with
  | nil => rfl
  | cons x before ih => exact congrArg ((c.step s x).1 :: ·) (ih (c.step s x).2)

theorem after_append (s : S) (before steps : List Step) :
    c.after s (before ++ steps) = c.after (c.after s before) steps :=
  List.foldl_append

/-- What may be seen of the steps, in whatever order maps are gone through meanwhile. -/
def Shows (s : S) (steps : List Step) (answers : List Answer) : Prop :=
  ∃ steps' : List Step, steps'.map Step.unhashed = steps.map Step.unhashed ∧
    c.answers s steps' = answers

/-! ### Consoles that answer alike -/

/-- A step of the second console gives the answer that the first one gives to the step as it is seen
from there, and leads to related states. -/
def Follows (seen : Step → Step) (R : S → S' → Prop) (s : S) (s' : S') (x : Step) : Prop :=
  (c'.step s' x).1 = (c.step s (seen x)).1 ∧ R (c.step s (seen x)).2 (c'.step s' x).2

variable {c c'} {R : S → S' → Prop} {s : S} {s' : S'}

/-- **Related states cannot be told apart.** -/
theorem answers_eq_of_follows {seen : Step → Step}
    (h : ∀ s s' x, R s s' → Follows c c' seen R s s' x) (hs : R s s') (steps : List Step) :
    c'.answers s' steps = c.answers s (steps.map seen) := by
  induction steps generalizing s s' with
  | nil => rfl
  | cons x steps ih =>
    obtain ⟨hanswer, hnext⟩ := h s s' x hs
    rw [List.map_cons, answers, answers, hanswer, ih hnext]

/-- **What the second console shows, the first one shows**, if steps look the same from there but
for the order in which maps are gone through. -/
theorem Shows.of_follows
    (h : ∀ s s', R s s' → ∃ seen : Step → Step, (∀ x, (seen x).unhashed = x.unhashed) ∧
      ∀ x, Follows c c' seen R s s' x)
    (hs : R s s') {steps : List Step} {answers : List Answer}
    (hshows : c'.Shows s' steps answers) : c.Shows s steps answers := by
  obtain ⟨steps', hsteps, rfl⟩ := hshows
  induction steps' generalizing s s' steps with
  | nil => exact ⟨[], hsteps, rfl⟩
  | cons x steps' ih =>
    cases steps with
    | nil => cases hsteps
    | cons y steps =>
      obtain ⟨hx, hrest⟩ := List.cons.inj hsteps
      -- each step is seen through the relation that holds when it is taken
      obtain ⟨seen, hseen, hfollows⟩ := h s s' hs
      obtain ⟨hanswer, hnext⟩ := hfollows x
      obtain ⟨steps'', hsteps'', hanswers⟩ := ih hnext hrest
      refine ⟨seen x :: steps'', ?_, ?_⟩
      · rw [List.map_cons, List.map_cons, hseen, hx, hsteps'']
      · rw [Console.answers, Console.answers, hanswer, hanswers]

/-- A console that follows another one at a distance is followed by it. -/
theorem shows_iff_of_behind
    (h : ∀ s s', R s s' → ∃ n, ∀ x, Follows c c' (Step.behind n) R s s' x) (hs : R s s')
    (steps : List Step) (answers : List Answer) :
    c'.Shows s' steps answers ↔ c.Shows s steps answers := by
  constructor
  · refine Shows.of_follows (R := R) (fun s s' hs => ?_) hs
    obtain ⟨n, hn⟩ := h s s' hs
    exact ⟨Step.behind n, Step.unhashed_behind n, hn⟩
  · refine Shows.of_follows (R := fun s' s => R s s') (fun s' s hs => ?_) hs
    obtain ⟨n, hn⟩ := h s s' hs
    -- some order in the second console is the order of the first one
    obtain ⟨back, hback⟩ := (Step.behind_surjective n).hasRightInverse
    refine ⟨back, fun x => ?_, fun x => ?_⟩
    · rw [← Step.unhashed_behind n, hback]
    · obtain ⟨hanswer, hnext⟩ := hn (back x)
      rw [hback] at hanswer hnext
      exact ⟨hanswer.symm, hnext⟩

end Console

/-! ### Active calls -/

/-- Unless it is broken off, the computation leaves as many calls active as it finds. -/
def Eval.Level {α : Type} (x : Eval α) : Prop :=
  ∀ b st, (x b st).1 ≠ .exhausted → (x b st).2.depth = st.depth

namespace Eval

variable {α β : Type} {x : Eval α} {f : α → Eval β}

theorem Level.bind (hx : x.Level) (hf : ∀ b st a after, x b st = (.value a, after) → (f a).Level) :
    (x >>= f).Level := by
  intro b st hended
  rcases h : x b st with ⟨a | e | _, mid⟩
  · have hmid : mid.depth = st.depth := by simpa [h] using hx b st
    rw [bind_of_value h] at hended ⊢
    exact (hf b st a mid h b mid hended).trans hmid
  · rw [bind_of_error h]
    simpa [h] using hx b st
  · rw [bind_of_exhausted h] at hended
    exact absurd rfl hended

theorem level_act {event : Event} {g : State → Ending α × State}
    (hg : ∀ st, (g st).2.depth = st.depth) : (act event g).Level := by
  intro b st _
  have hst := hg st
  rcases h : g st with ⟨a | e | _, after⟩ <;> rw [h] at hst
  -- a watch that objects leaves the state as it was before
  · rw [act_of_value h]
    split
    · exact hst
    · rfl
  · rw [act_of_error h]
    exact hst
  · rw [act_of_exhausted h]
    exact hst

/-- A call is counted while it lasts, and no longer. -/
theorem Level.frame (hx : x.Level) : (Eval.frame x).Level := by
  intro b st hended
  -- the call is counted before its body runs, and a call that is refused is not counted
  by_cases hle : st.depth + 1 ≤ b.limit
  · rcases h : x b { st with depth := st.depth + 1 } with ⟨a | e | _, after⟩
    · have hafter : after.depth = st.depth + 1 := by
        simpa [h] using hx b { st with depth := st.depth + 1 }
      rw [frame_of_value hle h]
      exact congrArg (· - 1) hafter
    · have hafter : after.depth = st.depth + 1 := by
        simpa [h] using hx b { st with depth := st.depth + 1 }
      rw [frame_of_error hle h]
      exact congrArg (· - 1) hafter
    · rw [frame_of_exhausted hle h] at hended
      exact absurd rfl hended
  · rw [frame_of_lt (Nat.lt_of_not_le hle)]

end Eval

/-- The computations that leave as many calls active as they find. -/
def levelFamily : Family where
  Has x := x.Level
  pure _ _ _ := rfl
  bind := Eval.Level.bind
  fail _ _ _ _ := rfl
  exhausted _ _ _ := rfl
  reading _ _ _ := rfl
  act hdepth _ := Eval.level_act hdepth
  frame := Eval.Level.frame

namespace Session

variable {α : Type} {s : Session}

/-- The session with its maps gone through in another order. -/
def rehash (s : Session) (f : Hashing) : Session :=
  { s with state := { s.state with heap := s.state.heap.rehash f } }

/-- A session as a console: texts are run unwatched. -/
def console : Console Session where
  run s fuel source := s.run fuel source
  runStatements s fuel source := s.runStatements fuel source
  runLine s fuel line := s.runLine fuel line
  localBindings := localBindings
  allBindings := allBindings
  inspect := inspect
  takeOutput := takeOutput
  reset := reset
  rehash := rehash

/-- In which order maps are gone through until the next step makes no difference. -/
theorem follows_rehash (s s' : Session) (x : Step) (hs : ∃ f, s' = s.rehash f) :
    console.Follows console id (fun s s' => ∃ f, s' = s.rehash f) s s' x := by
  -- a run brings its own order with it; a listing shows texts, in which there is no trace of it
  have hlist : ∀ (s : Session) (f : Hashing) (bs : List (String × Value)),
      (console.list bs (s.rehash f)).1 = (console.list bs s).1 := by
    intro s f bs
    refine congrArg Answer.listed ?_
    refine List.map_congr_left fun b _ => congrArg (fun text => (b.1, b.2.kind, text)) ?_
    exact s.state.heap.inspect_rehash f b.2
  obtain ⟨f, rfl⟩ := hs
  cases x with
  | localBindings => exact ⟨hlist s f s.localBindings, f, rfl⟩
  | allBindings => exact ⟨hlist s f s.allBindings, f, rfl⟩
  | reset => exact ⟨rfl, _, rfl⟩
  | _ => exact ⟨rfl, _, rfl⟩

theorem limit_performText (x : Program → Eval α) (source : String) (watch : Option Watch) :
    (s.performText source watch x).2.limit = s.limit := by
  unfold performText
  split
  · rfl
  · rfl

theorem depth_performText {x : Program → Eval α} (hx : ∀ p, (x p).Level) {source : String}
    {watch : Option Watch} (hended : (s.performText source watch x).1.ended = true) :
    (s.performText source watch x).2.state.depth = s.state.depth := by
  unfold performText at hended ⊢
  cases hp : Program.parse source with
  | error e => rfl
  | ok p =>
    simp only [hp] at hended
    -- an outcome that ended is no want of fuel, which alone leaves a level open
    refine hx p ⟨s.limit, watch⟩ s.state fun hstop => ?_
    change (Outcome.ofEnding (x p ⟨s.limit, watch⟩ s.state).1).ended = true at hended
    rw [hstop] at hended
    cases hended

/-- A session between two steps: no call is active, and what was printed has been taken. -/
structure Idle (limit : Nat) (s : Session) : Prop where
  limit : s.limit = limit
  depth : s.state.depth = 0
  output : s.state.output = #[]

namespace Idle

variable {limit : Nat}

theorem new (limit : Nat) : Idle limit (Session.new limit) := ⟨rfl, rfl, rfl⟩

theorem rehash (hs : Idle limit s) (f : Hashing) : Idle limit (s.rehash f) :=
  ⟨hs.limit, hs.depth, hs.output⟩

/-- A run that ends, after which the output is taken. -/
theorem performText (hs : Idle limit s) {x : Program → Eval α} (hx : ∀ p, (x p).Level)
    {source : String} (hended : (s.performText source none x).1.ended = true) :
    Idle limit (s.performText source none x).2.takeOutput.2 :=
  ⟨(s.limit_performText x source none).trans hs.limit,
    (depth_performText hx hended).trans hs.depth, rfl⟩

/-- **A step that ends** leaves the session idle. -/
theorem step (hs : Idle limit s) (x : Step) (hended : (console.step s x).1.ended = true) :
    Idle limit (console.step s x).2 := by
  -- only runs make calls; a reset leaves their number and the output as they are
  cases x with
  | run fuel source f =>
    refine (hs.rehash f).performText (levelFamily.has_evalLast fuel globalScope) ?_
    exact (Outcome.ended_map _).symm.trans hended
  | runStatements fuel source f =>
    refine (hs.rehash f).performText (levelFamily.has_evalProgram fuel globalScope) ?_
    exact (Outcome.ended_map _).symm.trans hended
  | runLine fuel line f =>
    refine (hs.rehash f).performText (levelFamily.has_evalProgram fuel globalScope) ?_
    exact ((Outcome.ended_map _).trans (Outcome.ended_map _)).symm.trans hended
  | localBindings => exact hs
  | allBindings => exact hs
  | reset => exact ⟨hs.limit, hs.depth, hs.output⟩

/-- **Steps that end** leave the session idle. -/
theorem after (hs : Idle limit s) {steps : List Step}
    (hended : ∀ a ∈ console.answers s steps, a.ended = true) :
    Idle limit (console.after s steps) := by
  induction steps generalizing s with
  | nil => exact hs
  | cons x steps ih =>
    have hx : (console.step s x).1.ended = true := hended _ List.mem_cons_self
    exact ih (hs.step x hx) fun a ha => hended a (List.mem_cons_of_mem _ ha)

/-- **An idle session that is reset** is a new one. -/
theorem reset_eq_new (hs : Idle limit s) : ∃ f, s.reset = Session.new limit f := by
  obtain ⟨l, st⟩ := s
  obtain ⟨rfl, hdepth, houtput⟩ := hs
  refine ⟨st.heap.hashing.behind st.heap.size, ?_⟩
  unfold Session.reset Session.new
  dsimp only at hdepth houtput ⊢
  rw [hdepth, houtput]
  rfl

end Idle

/-- **After a reset** a session answers as a new one does. -/
theorem answers_append_reset (limit : Nat) {before : List Step}
    (hended : ∀ a ∈ console.answers (new limit) before, a.ended = true) (steps : List Step) :
    console.answers (new limit) (before ++ .reset :: steps) =
      console.answers (new limit) before ++ .done :: console.answers (new limit) steps := by
  obtain ⟨f, hreset⟩ := ((Idle.new limit).after hended).reset_eq_new
  have hsteps : console.answers (new limit f) steps = console.answers (new limit) steps := by
    have h := Console.answers_eq_of_follows follows_rehash (s := new limit) ⟨f, rfl⟩ steps
    rwa [List.map_id] at h
  rw [console.answers_append, Console.answers, ← hsteps]
  exact congrArg (fun s => _ ++ Answer.done :: console.answers s steps) hreset

end Session

end AtomScript
