import AtomScript.Proofs.Mirror.Evaluator
import AtomScript.Proofs.Session.Console
import AtomScript.Proofs.Session.Global

/-!
# Resetting a session

A session that has been reset cannot be told from a new one, whatever has been done with it before:
programs that failed, calls that were refused, aggregates that contain themselves, functions that
are kept in aggregates.

That would be little to say of sessions alone, whose reset throws everything away
(`Session.answers_append_reset`).  An *interpreter* throws nothing away.  Its reset makes a new
global scope, in the memory that holds all cells and scopes of the programs before and goes on
counting their functions.  So what later programs make has other addresses and other identities than
in a new interpreter: all of them are shifted by what has been there before (`Interpreter.Holds`),
and evaluation mirrors itself under shifts.

Maps are gone through in an order that is decided at random.  The maps made after a reset come
behind the cells that are left, so what is seen of the steps then is what is seen of them in a new
interpreter whose maps are gone through as those are, and the other way about: the two have the same
answers to choose from.

* `Interpreter.Holds.step` — an interpreter that holds another one answers every step as that does;
* `Interpreter.HoldsSession.step` — and so does one that holds a session;
* `Interpreter.answers_reset` — what has been done before a reset cannot be told from the answers.
-/

namespace AtomScript

/-- A session that keeps all that was ever made in it, with the scope that is global now. -/
structure Interpreter extends Session where
  global : ScopeId

namespace Interpreter

variable {α : Type}

def new (limit : Nat) (hashing : Hashing := .arrival) : Interpreter :=
  ⟨Session.new limit hashing, globalScope⟩

/-- Goes on in a new global scope.  Nothing else changes. -/
def reset (i : Interpreter) : Interpreter :=
  { i with
    state := { i.state with scopes := i.state.scopes.addGlobal }
    global := i.state.scopes.size }

/-- Reads a text and runs the computation that is made of it. -/
def performText (i : Interpreter) (source : String) (x : Program → Eval α) :
    Outcome α × Interpreter :=
  ((i.toSession.performText source none x).1,
    { i with toSession := (i.toSession.performText source none x).2 })

/-- The interpreter with its maps gone through in another order. -/
def rehash (i : Interpreter) (f : Hashing) : Interpreter :=
  { i with toSession := i.toSession.rehash f }

/-- An interpreter as a console.  It does what a session does, in the scope that is global now. -/
def console : Console Interpreter where
  run i fuel source := i.performText source (evalLast fuel i.global)
  runStatements i fuel source := i.performText source (evalProgram fuel i.global)
  runLine i fuel line :=
    Prod.map (.map (·.filter fun v => !v.isNull)) id
      (i.performText line (evalProgram fuel i.global))
  localBindings i := i.state.scopes.localBindings i.global
  allBindings i := i.state.scopes.allBindings i.global
  inspect i := i.toSession.inspect
  takeOutput i := (i.toSession.takeOutput.1, { i with toSession := i.toSession.takeOutput.2 })
  reset := reset
  rehash := rehash

end Interpreter

/-! ### A new global scope -/

variable {σ : Shift}

theorem Shift.value_of_isPlain {v : Value} (h : v.isPlain = true) : σ.value v = v := by
  cases v <;> first | rfl | cases h

namespace ScopeTree.Shifted

variable {t : ScopeTree}

/-- Behind the last scope there is nothing, as in the tree without scopes. -/
theorem empty (ht : t.size = σ.scopes) : ScopeTree.empty.Shifted σ t := by
  have hbehind : ∀ s, t.scope (σ.scopes + s) = .bare [] := fun s =>
    t.scope_of_size_le (ht ▸ Nat.le_add_right _ s)
  have hempty : ∀ s, ScopeTree.empty.scope s = .bare [] := fun s =>
    scope_of_size_le _ (Nat.zero_le s)
  refine ⟨ht, fun s => ?_, fun s name => ?_⟩
  · rw [hbehind, hempty]
    rfl
  · rw [hbehind, hempty, Scope.find?_bare, Option.map_none]

theorem bindAll {t' : ScopeTree} (hs : t.Shifted σ t') {bs : List (String × Value)}
    (hbs : ∀ b ∈ bs, b.2.isPlain = true) (s : ScopeId) :
    (t.bindAll s bs).Shifted σ (t'.bindAll (σ.scopes + s) bs) := by
  induction bs generalizing t t' with
  | nil => exact hs
  | cons b bs ih =>
    refine ih ?_ fun c hc => hbs c (List.mem_cons_of_mem b hc)
    -- the same name is bound on both sides, to a value that the shift does not rename
    have hb := hs.bind s b.1 ⟨b.2, true⟩
    have hplain : σ.value b.2 = b.2 := Shift.value_of_isPlain (hbs b List.mem_cons_self)
    unfold Shift.binding at hb
    dsimp only at hb
    rwa [hplain] at hb

/-- New global scopes bind the same. -/
theorem addGlobal {t' : ScopeTree} (hs : t.Shifted σ t') : t.addGlobal.Shifted σ t'.addGlobal := by
  have hroot : t.addRoot.Shifted σ t'.addRoot := by
    refine hs.scope_push _ _ rfl fun name => ?_
    rw [Scope.find?_bare, Option.map_none]
  rw [ScopeTree.addGlobal_eq, ScopeTree.addGlobal_eq, hs.size]
  exact hroot.bindAll isPlain_builtins t.size

end ScopeTree.Shifted

theorem Heap.Shifted.empty {h : Heap} (hh : h.size = σ.cells) (hashing : Hashing) :
    (Heap.empty hashing).Shifted σ h := by
  refine ⟨hh, fun r => ?_⟩
  rw [Array.getElem?_eq_none (hh ▸ Nat.le_add_right _ r)]
  rfl

/-! ### An interpreter that holds another one -/

namespace Interpreter

open Eval

variable {α β : Type}

/-- The second interpreter holds what the first one does, behind what it has left from before.  The
next step may have their maps gone through in any order, so long as it is the same for both. -/
structure Holds (σ : Shift) (i i' : Interpreter) : Prop where
  limit : i'.limit = i.limit
  global : i'.global = σ.scopes + i.global
  state : ∀ f : Hashing, (i.rehash (f.behind σ.cells)).state.Shifted σ (i'.rehash f).state

/-- States that are alike are alike whatever way their maps are gone through. -/
theorem Holds.of_shifted {i i' : Interpreter} (hlimit : i'.limit = i.limit)
    (hglobal : i'.global = σ.scopes + i.global) (hst : i.state.Shifted σ i'.state) :
    Holds σ i i' where
  limit := hlimit
  global := hglobal
  state _ := { hst with heap := ⟨hst.heap.size, hst.heap.cell⟩, hashing := rfl }

namespace Holds

variable {i i' : Interpreter} (hi : Holds σ i i')

include hi

theorem heap : i.state.heap.Shifted σ i'.state.heap :=
  ⟨(hi.state .arrival).heap.size, (hi.state .arrival).heap.cell⟩

theorem performText (f : Hashing) {g : α → β} {x : Program → Eval α} {y : Program → Eval β}
    (hxy : ∀ p, Mirrors σ g (x p) (y p)) (source : String) :
    ((i'.rehash f).performText source y).1 =
        ((i.rehash (f.behind σ.cells)).performText source x).1.map g ∧
      Holds σ ((i.rehash (f.behind σ.cells)).performText source x).2
        ((i'.rehash f).performText source y).2 := by
  unfold Interpreter.performText Session.performText
  -- a text that is no program changes nothing
  cases Program.parse source with
  | error e => exact ⟨rfl, of_shifted hi.limit hi.global (hi.state f)⟩
  | ok p =>
    obtain ⟨hending, hafter⟩ := hxy p (i.rehash (f.behind σ.cells)).limit _ _ (hi.state f)
    have hlimit : (i'.rehash f).limit = (i.rehash (f.behind σ.cells)).limit := hi.limit
    dsimp only [Session.perform]
    rw [hlimit]
    refine ⟨?_, of_shifted rfl hi.global hafter⟩
    rw [hending]
    cases (x p ⟨(i.rehash (f.behind σ.cells)).limit, none⟩
      (i.rehash (f.behind σ.cells)).state).1 <;> rfl

theorem describe (v : Value) :
    console.describe i' (σ.value v) = console.describe i v :=
  Prod.ext (σ.kind_value v) (hi.heap.inspect v)

omit hi in
theorem report {result : Outcome α × Interpreter} {result' : Outcome β × Interpreter} {g : α → β}
    {values : α → List Value} {values' : β → List Value}
    (houtcome : result'.1 = result.1.map g) (hi : Holds σ result.2 result'.2)
    (hvalues : ∀ a, values' (g a) = (values a).map σ.value) :
    (console.report values' result').1 = (console.report values result).1 ∧
      Holds σ (console.report values result).2 (console.report values' result').2 := by
  refine ⟨?_, hi.limit, hi.global, fun f => { hi.state f with output := rfl }⟩
  -- what was printed is part of the state, and values are described alike in related states
  have hprinted : (console.takeOutput result'.2).1 = (console.takeOutput result.2).1 :=
    congrArg Array.toList (hi.state .arrival).output
  have hdescribe : ∀ a, (values' (g a)).map (console.describe result'.2) =
      (values a).map (console.describe result.2) := by
    intro a
    rw [hvalues, List.map_map]
    exact List.map_congr_left fun v _ => hi.describe v
  unfold Console.report
  rw [houtcome, hprinted, Outcome.map_map]
  dsimp only [Function.comp_def]
  simp only [hdescribe]

theorem list {bs bs' : List (String × Value)}
    (hbs : bs' = bs.map fun b => (b.1, σ.value b.2)) :
    (console.list bs' i').1 = (console.list bs i).1 := by
  refine congrArg Answer.listed ?_
  rw [hbs, List.map_map]
  exact List.map_congr_left fun b _ => congrArg (Prod.mk b.1) (hi.describe b.2)

omit hi in
/-- A value and the shifted one are both null or both not. -/
theorem filter_shown (vs : List Value) :
    (vs.map σ.value).filter (fun v => !v.isNull) =
      (vs.filter fun v => !v.isNull).map σ.value := by
  simp [List.filter_map, Function.comp_def]

/-- Both go on in other scopes. -/
theorem goOn {t t' : ScopeTree} (ht : t.Shifted σ t') {s s' : ScopeId} (hs : s' = σ.scopes + s) :
    Holds σ { i with state := { i.state with scopes := t }, global := s }
      { i' with state := { i'.state with scopes := t' }, global := s' } where
  limit := hi.limit
  global := hs
  state f := { hi.state f with scopes := ht }

theorem reset : Holds σ i.reset i'.reset := by
  have hscopes := (hi.state .arrival).scopes
  unfold Interpreter.reset
  exact hi.goOn hscopes.addGlobal hscopes.size

/-- **An interpreter answers every step as the one does that it holds**, and goes on holding it. -/
theorem step (x : Step) : console.Follows console (Step.behind σ.cells) (Holds σ) i i' x := by
  -- what is done in the one global scope is done in the other
  have hstatements (fuel : Nat) := mirrors_evalProgram (σ := σ) fuel i.global
  have hlast (fuel : Nat) := mirrors_evalLast (σ := σ) fuel i.global
  rw [← hi.global] at hstatements hlast
  cases x with
  | run fuel source f =>
    obtain ⟨houtcome, hnext⟩ := hi.performText f (hlast fuel) source
    exact report houtcome hnext fun v => rfl
  | runStatements fuel source f =>
    obtain ⟨houtcome, hnext⟩ := hi.performText f (hstatements fuel) source
    exact report houtcome hnext fun vs => rfl
  | runLine fuel line f =>
    obtain ⟨houtcome, hnext⟩ := hi.performText f (hstatements fuel) line
    refine report (g := List.map σ.value) ?_ hnext fun vs => rfl
    change Outcome.map _ ((i'.rehash f).performText line (evalProgram fuel i'.global)).1 =
      Outcome.map _ (Outcome.map _ _)
    rw [houtcome, Outcome.map_map, Outcome.map_map]
    exact congrArg (Outcome.map · _) (funext filter_shown)
  | localBindings =>
    have hbindings := (hi.state .arrival).scopes.localBindings i.global
    rw [← hi.global] at hbindings
    exact ⟨hi.list hbindings, hi⟩
  | allBindings =>
    have hbindings := (hi.state .arrival).scopes.allBindings i.global
    rw [← hi.global] at hbindings
    exact ⟨hi.list hbindings, hi⟩
  | reset => exact ⟨rfl, hi.reset⟩

end Holds

/-! ### New interpreters -/

/-- A state without cells, and with a global scope only, behind all that another one holds. -/
theorem shifted_addGlobal (st st' : State) (f : Hashing) (hdepth : st'.depth = st.depth)
    (houtput : st'.output = st.output) :
    State.Shifted ⟨st'.heap.size, st'.scopes.size, st'.functions⟩
      { st with
        heap := .empty (f.behind st'.heap.size), scopes := globalScopes, functions := 0 }
      { st' with heap := st'.heap.rehash f, scopes := st'.scopes.addGlobal } where
  heap := Heap.Shifted.empty rfl _
  hashing := rfl
  scopes := (ScopeTree.Shifted.empty rfl).addGlobal
  functions := rfl
  depth := hdepth
  output := houtput

/-- No call is active in the interpreter, and what was printed has been taken. -/
theorem idle_step {i : Interpreter} {limit : Nat} (hi : i.toSession.Idle limit) (x : Step)
    (hended : (console.step i x).1.ended = true) :
    (console.step i x).2.toSession.Idle limit := by
  cases x with
  -- a run that ended is back at depth 0, and the other steps do not run anything
  | run fuel source f =>
    refine (hi.rehash f).performText (levelFamily.has_evalLast fuel i.global) ?_
    exact (Outcome.ended_map _).symm.trans hended
  | runStatements fuel source f =>
    refine (hi.rehash f).performText (levelFamily.has_evalProgram fuel i.global) ?_
    exact (Outcome.ended_map _).symm.trans hended
  | runLine fuel line f =>
    refine (hi.rehash f).performText (levelFamily.has_evalProgram fuel i.global) ?_
    exact ((Outcome.ended_map _).trans (Outcome.ended_map _)).symm.trans hended
  | localBindings => exact hi
  | allBindings => exact hi
  | reset =>
    change Session.Idle limit i.reset.toSession
    unfold Interpreter.reset
    exact ⟨hi.limit, hi.depth, hi.output⟩

theorem idle_after {i : Interpreter} {limit : Nat} (hi : i.toSession.Idle limit)
    {steps : List Step} (hended : ∀ a ∈ console.answers i steps, a.ended = true) :
    (console.after i steps).toSession.Idle limit := by
  induction steps generalizing i with
  | nil => exact hi
  | cons x steps ih =>
    have hx : (console.step i x).1.ended = true := hended _ List.mem_cons_self
    exact ih (idle_step hi x hx) fun a ha => hended a (List.mem_cons_of_mem _ ha)

/-- **After a reset** the interpreter holds a new one, behind all that it has kept. -/
theorem holds_reset {i : Interpreter} {limit : Nat} (hi : i.toSession.Idle limit) :
    Holds ⟨i.state.heap.size, i.state.scopes.size, i.state.functions⟩ (new limit) i.reset := by
  unfold Interpreter.reset
  exact ⟨hi.limit, rfl, fun f => shifted_addGlobal .initial i.state f hi.depth hi.output⟩

/-! ### What sessions answer -/

/-- A session is an interpreter that has not been reset. -/
theorem step_session (s : Session) {x : Step} (hx : x ≠ .reset) :
    console.step ⟨s, globalScope⟩ x =
      ((Session.console.step s x).1, ⟨(Session.console.step s x).2, globalScope⟩) := by
  cases x with
  | reset => exact absurd rfl hx
  | _ => rfl

/-- The interpreter holds what the session does, behind all that is left from before. -/
def HoldsSession (s : Session) (i : Interpreter) : Prop := ∃ σ, Holds σ ⟨s, globalScope⟩ i

/-- After a reset the session lies further behind. -/
theorem HoldsSession.reset {s : Session} {i : Interpreter} (hi : HoldsSession s i) :
    HoldsSession s.reset i.reset := by
  obtain ⟨σ, hi⟩ := hi
  have hst := hi.state .arrival
  unfold Session.reset Interpreter.reset
  exact ⟨⟨i.state.heap.size, i.state.scopes.size, i.state.functions⟩, hi.limit, rfl,
    fun f => shifted_addGlobal s.state i.state f hst.depth hst.output⟩

/-- One step, as it is seen from the session. -/
theorem HoldsSession.step {s : Session} {i : Interpreter} (hi : HoldsSession s i) :
    ∃ n, ∀ x, Session.console.Follows console (Step.behind n) HoldsSession s i x := by
  obtain ⟨σ, hσ⟩ := hi
  refine ⟨σ.cells, fun x => ?_⟩
  by_cases hx : x = .reset
  · subst hx
    exact ⟨rfl, HoldsSession.reset ⟨σ, hσ⟩⟩
  -- a reset is related by itself; every other step goes through the evaluator
  · obtain ⟨hanswer, hnext⟩ := hσ.step x
    have hx' : x.behind σ.cells ≠ .reset := by
      cases x with
      | reset => exact absurd rfl hx
      | _ => exact nofun
    rw [step_session s hx'] at hanswer hnext
    exact ⟨hanswer, σ, hnext⟩

theorem holdsSession_new (limit : Nat) : HoldsSession (.new limit) (new limit) := by
  let nothing : State := ⟨.empty, .empty, 0, 0, #[]⟩
  exact ⟨⟨0, 0, 0⟩, rfl, rfl, fun f => shifted_addGlobal nothing nothing f rfl rfl⟩

/-- **A reset forgets everything.**  Let any steps be taken with a new interpreter, all of which
end: programs may fail, overflow, build aggregates that contain themselves and keep functions.  What
is seen of the steps after a reset is then what is seen of them when they are taken with another new
interpreter of the same limit, although nothing has been taken out of memory: under each order in
which the maps made after the reset are gone through, it is what is seen under the same order there;
so that as much can be seen here as there.  And whatever is taken with an interpreter, no more and
no less can be seen of it than of the same steps taken with a session, whose reset empties it. -/
theorem answers_reset (limit : Nat) (before : List Step)
    (hended : ∀ a ∈ console.answers (new limit) before, a.ended = true) :
    (∃ n, ∀ steps, console.answers (new limit) (before ++ .reset :: steps) =
        console.answers (new limit) before ++
          .done :: console.answers (new limit) (steps.map (Step.behind n))) ∧
      (∀ steps answers,
        console.Shows (console.after (new limit) (before ++ [.reset])) steps answers ↔
          console.Shows (new limit) steps answers) ∧
      ∀ steps answers, console.Shows (new limit) steps answers ↔
        Session.console.Shows (.new limit) steps answers := by
  -- the interpreter after the reset is a fresh one behind the cells that are left
  have hidle := idle_after (i := new limit) (Session.Idle.new limit) hended
  have hholds := holds_reset hidle
  refine ⟨⟨(console.after (new limit) before).state.heap.size, fun steps => ?_⟩,
    fun steps answers => ?_, fun steps answers => ?_⟩
  · have hsteps := Console.answers_eq_of_follows (fun _ _ x hi => Holds.step hi x) hholds steps
    rw [console.answers_append, Console.answers]
    exact congrArg (_ ++ Answer.done :: ·) hsteps
  · rw [console.after_append]
    exact Console.shows_iff_of_behind (fun _ _ hi => ⟨_, hi.step⟩) hholds steps answers
  · exact Console.shows_iff_of_behind (fun _ _ hi => hi.step) (holdsSession_new limit) steps answers

/-- A list that contains itself and a function, an overflow and an unknown name; after the reset
there is another list, another `x` and no `f`. -/
theorem answers_reset_mixed :
    let before : List Step :=
      [.run 40 "x = [1]; List.append(x, x); List.append(x, fn (n) -> x end)",
        .run 40 "def f(n) do return f(n) end print(x); f(0)", .runLine 40 "x; y"]
    let steps : List Step :=
      [.runStatements 40 "y = [2]; x = {y, y}", .localBindings, .run 40 "f(x)"]
    (∀ a ∈ console.answers (new 3) before, a.ended = true) ∧
      console.answers (new 3) (before ++ .reset :: steps) =
        console.answers (new 3) before ++ .done :: console.answers (new 3) steps := by
  intro before steps
  have hended : ∀ a ∈ console.answers (new 3) before, a.ended = true := by decide +kernel
  obtain ⟨n, hn⟩ := (answers_reset 3 before hended).1
  exact ⟨hended, hn steps⟩

-- the order can be seen: each of the two that contain themselves may be the one that is reported
example :
    let text := "l = [1]; List.append(l, l); t = \x7b1\x7d; Tuple.append(t, t); " ++
      "Map.put(%\x7b\x7d, %\x7b:a => l, :b => t\x7d, 1)"
    let error (kind : Kind) := [Answer.ran (.error (.selfContainingKey kind)) []]
    console.Shows (new 3) [.run 40 text] (error .list) ∧
      console.Shows (new 3) [.run 40 text] (error .tuple) :=
  ⟨⟨[.run 40 _], rfl, by decide +kernel⟩, ⟨[.run 40 _ fun _ k => 1 - k], rfl, by decide +kernel⟩⟩

end Interpreter

end AtomScript
