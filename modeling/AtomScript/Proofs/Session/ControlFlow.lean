import AtomScript.Proofs.Eval.Realm
import AtomScript.Proofs.Session.Global
import AtomScript.Proofs.Session.SyntaxErrors

/-!
# Where signals go

A `return`, `break` or `continue` that nothing takes ends the run with a `UsageError`.  Whether that
can happen is decided by the text of the programs: a signal leaves a statement only if the statement
exposes it (`evalStmt_exposes`), and what a well-placed program exposes is always taken.

Functions are called long after the program that defined them, by programs that only hold the value.
So the invariant of a session is about values: the body of every function that is bound or held by a
cell is well-placed, and so are the bodies of the functions that it defines (`Value.Placed`).

* `placedRealm` — the evaluator keeps this up, and reports no stray signal;
* `Session.Placed.perform` — one step of a session;
* `Session.wellPlaced_not_usageError` — what it means for sessions.
-/

namespace AtomScript

/-! ### Functions with well-placed bodies -/

/-- All statements may stand in a function body. -/
def BodyPlaced (body : List Stmt) : Prop :=
  ∀ s ∈ body, s.wellPlaced .function = true

theorem Stmt.Defines.placed {s : Stmt} {body : List Stmt} {p : Place} (h : s.Defines body)
    (hs : s.wellPlaced p = true) : BodyPlaced body := by
  induction h generalizing p with
  | here => exact wellPlaced_define.1 hs
  | inFunction ht _ ih => exact ih (wellPlaced_define.1 hs _ ht)
  | inLoop ht _ ih => exact ih (wellPlaced_whileLoop.1 hs _ ht)
  | inClause hc ht _ ih => exact ih (wellPlaced_conditional.1 hs _ hc _ ht)

/-- A function body takes no signal but `return`. -/
theorem BodyPlaced.not_exposes {body : List Stmt} {k : Signal} (h : BodyPlaced body)
    (hk : k ≠ .returning) : ¬ BodyExposes body k := by
  rintro ⟨s, hs, hexposes⟩
  have htaken := hexposes.takes (h s hs)
  cases k with
  | returning => exact hk rfl
  | breaking => cases htaken
  | continuing => cases htaken

/-- If the value is a function, its body and those inside it are well-placed. -/
def Value.Placed : Value → Prop
  | .function f => ∀ body, f.definition.Defines body → BodyPlaced body
  | _ => True

theorem Value.placed_of_isPlain {v : Value} (h : v.isPlain = true) : v.Placed := by
  cases v with
  | function f => cases h
  | _ => trivial

theorem Value.placed_of_ref? {v : Value} {r : Ref} (h : v.ref? = some r) : v.Placed := by
  cases v with
  | function f => cases h
  | _ => trivial

/-! ### The signals of one statement -/

/-- Nothing is asked of a computation but its values. -/
def anyFamily : Family where
  Has _ := True
  pure := trivial
  bind _ _ := trivial
  fail _ := trivial
  exhausted := trivial
  reading := trivial
  act _ _ := trivial
  frame _ := trivial

/-- **A signal leaves a statement that exposes it**, and no other. -/
theorem evalStmt_exposes {n : Nat} {i : ScopeId} {stmt : Stmt} {b : Bounds} {st : State}
    {flow : Flow} {k : Signal} (h : (evalStmt n i stmt b st).1 = .value flow)
    (hk : flow.signal? = some k) : stmt.Exposes k := by
  have hcarries : anyFamily.Comp (anyFamily.logic.Carries stmt.Exposes) (evalStmt n i stmt) :=
    (anyFamily.logic.evaluates n).stmt (w := ()) trivial fun _ _ => trivial
  exact (hcarries.2 b st flow _ (Prod.ext h rfl)).sends hk

/-! ### The realm of well-placed functions -/

/-- All functions at large have well-placed bodies, and no stray signal is reported. -/
def placedRealm : Realm where
  start := .empty
  Region _ := True
  Val := Value.Placed
  Scope _ := True
  Here _ := True
  Body := BodyPlaced
  Fails e := e.isStray = false
  Tree t := t.Binds (fun _ => True) Value.Placed
  region_of_le _ := trivial
  val_plain := Value.placed_of_isPlain
  val_ref hr := iff_of_true (Value.placed_of_ref? hr) trivial
  val_function := ⟨fun hf => ⟨trivial, hf⟩, fun hf => hf.2⟩
  val_lambda := Iff.rfl
  here_scope _ := trivial
  fails_of_proper he := ((Error.isProper_iff _).1 he).1
  -- a body that exposes a `break` or `continue` is not well-placed
  fails_of_body hbody hexposes hk := absurd hexposes (hbody.not_exposes hk)
  lookup ht _ hv := ht.lookup (fun _ _ => trivial) hv
  addChild ht _ := ⟨ht.addChild, trivial⟩
  declare ht _ hv _ := ht.bind hv
  assign ht _ hv _ := ht.bind hv

/-- A well-placed statement may stand at the top level, where no signal is taken. -/
theorem placedRealm.admits {s : Stmt} (hs : s.wellPlaced .top = true) :
    placedRealm.logic.Admits s where
  makes := fun _ hbody => hbody.placed hs
  reports := fun k hk => by
    have htaken := hk.takes hs
    cases k <;> cases htaken

/-! ### Sessions -/

namespace Session

/-- Every function of the session has well-placed bodies. -/
def Placed (s : Session) : Prop :=
  placedRealm.regime.Inv () s.state

theorem placed_initial {st : State} {hashing : Hashing} (hheap : st.heap = .empty hashing)
    (hscopes : st.scopes = globalScopes) : placedRealm.regime.Inv () st := by
  refine ⟨⟨Nat.zero_le _, fun r c _ hc => ?_, fun _ hr => absurd trivial hr⟩, ?_⟩
  · rw [hheap] at hc
    exact absurd hc (by simp [Heap.empty])
  · -- what is built in is plain
    intro i _ name b hb
    rw [hscopes] at hb
    have hmem := ScopeTree.mem_builtins_of_find?_globalScopes hb
    exact Value.placed_of_isPlain (isPlain_builtins _ hmem)

/-- The step lemma: a computation that stays in the realm. -/
theorem Placed.perform {s : Session} {α : Type} {Q : Unit → α → Prop} {x : Eval α} (hs : s.Placed)
    (hx : placedRealm.regime.Comp () Q x) (watch : Option Watch) :
    (s.perform x watch).2.Placed ∧ (s.perform x watch).1.category? ≠ some "UsageError" := by
  obtain ⟨hheap, htree, hends⟩ := Realm.comp_run hx ⟨s.limit, watch⟩ hs.1 hs.2
  refine ⟨⟨hheap, htree⟩, ?_⟩
  -- an error of the run is not a stray signal, and only these are errors of usage
  change (Outcome.ofEnding (x ⟨s.limit, watch⟩ s.state).1).category? ≠ _
  generalize (x ⟨s.limit, watch⟩ s.state).1 = ending at hends
  cases ending with
  | value a => exact nofun
  | exhausted => exact nofun
  | error e =>
    intro heq
    have hstray : e.isStray = true := e.isStray_iff.2 (Option.some.inj heq)
    rw [hends] at hstray
    cases hstray

variable {s : Session} {source : String}

theorem Placed.performText {α : Type} {Q : Unit → α → Prop} {x : Program → Eval α} (hs : s.Placed)
    (hx : ∀ p, Program.parse source = .ok p → placedRealm.regime.Comp () Q (x p))
    (watch : Option Watch) :
    (s.performText source watch x).2.Placed ∧
      (s.performText source watch x).1.category? ≠ some "UsageError" := by
  cases h : Program.parse source with
  | error e =>
    rw [performText_of_error h]
    refine ⟨hs, fun heq => ?_⟩
    -- the text was refused, and a refused text has another category
    have hcategory : e.category = "UsageError" := Option.some.inj heq
    have hsyntax : e.isSyntaxError = true := Program.isSyntaxError_of_parse h
    unfold Error.isSyntaxError at hsyntax
    rw [hcategory] at hsyntax
    exact absurd hsyntax (by decide)
  | ok p =>
    unfold Session.performText
    rw [h]
    exact hs.perform (hx p h) watch

/-- The two ways of running a program that the others come down to. -/
theorem Placed.runs (hs : s.Placed) (hp : ∀ p, Program.parse source = .ok p → p.WellPlaced)
    (fuel : Nat) (watch : Option Watch) :
    ((s.run fuel source watch).2.Placed ∧
      (s.run fuel source watch).1.category? ≠ some "UsageError") ∧
    (s.runStatements fuel source watch).2.Placed ∧
      (s.runStatements fuel source watch).1.category? ≠ some "UsageError" := by
  constructor
  -- the placing of the program is what lets its statements into the logic
  · rw [run_eq_performText]
    refine hs.performText (Q := fun _ => Value.Placed) (fun p hparse => ?_) watch
    exact Logic.evalLast (L := placedRealm.logic) (w := ()) trivial
      fun stmt hstmt => placedRealm.admits (hp p hparse stmt hstmt)
  · rw [runStatements_eq_performText]
    refine hs.performText (Q := fun _ vs => ∀ v ∈ vs, v.Placed) (fun p hparse => ?_) watch
    exact Logic.evalProgram (L := placedRealm.logic) (w := ()) trivial
      fun stmt hstmt => placedRealm.admits (hp p hparse stmt hstmt)

/-- The run lemma: every function of a session is well-placed if the programs were. -/
theorem ReachedBy.placed (hs : s.ReachedBy Program.WellPlaced) : s.Placed := by
  -- by induction on how the session was reached; taking the output changes neither heap nor scopes
  induction hs with
  | new limit => exact placed_initial rfl rfl
  | run fuel watch _ hp ih => exact (ih.runs hp fuel watch).1.1
  | runStatements fuel watch _ hp ih => exact (ih.runs hp fuel watch).2.1
  | runLine fuel watch _ hp ih => exact (ih.runs hp fuel watch).2.1
  | takeOutput _ ih => exact ih
  | reset _ _ => exact placed_initial rfl rfl

/-- **Well-placed programs end in no `UsageError`**, however they are run, in a session in which
only such programs were run before.  For a signal leaves only a statement that exposes it. -/
theorem wellPlaced_not_usageError :
    (∀ {s : Session} {source : String}, s.ReachedBy Program.WellPlaced →
      (∀ p, Program.parse source = .ok p → p.WellPlaced) → ∀ fuel watch,
        (s.run fuel source watch).1.category? ≠ some "UsageError" ∧
        (s.runStatements fuel source watch).1.category? ≠ some "UsageError" ∧
        (s.runLine fuel source watch).1.category? ≠ some "UsageError") ∧
    (∀ {n i stmt b st flow k}, (evalStmt n i stmt b st).1 = .value flow →
      flow.signal? = some k → stmt.Exposes k) := by
  refine ⟨fun hs hp fuel watch => ?_, evalStmt_exposes⟩
  obtain ⟨⟨-, hrun⟩, -, hstatements⟩ := hs.placed.runs hp fuel watch
  refine ⟨hrun, hstatements, ?_⟩
  rw [runLine_eq, Outcome.category?_map]
  exact hstatements

/-- Whether a text is well-placed can be computed. -/
theorem wellPlaced_of_all {source : String}
    (h : (Program.parse source).toOption.all (fun p => decide p.WellPlaced) = true) :
    ∀ p, Program.parse source = .ok p → p.WellPlaced := by
  intro p hp
  rw [hp] at h
  exact of_decide_eq_true h

/-- A function with a loop that is left by a `break` and by a `return`, called by a later text. -/
theorem wellPlaced_not_usageError_loop :
    let text := "def f(c) do while true do if c do break end return 1 end end"
    let s := ((Session.new 8).run 200 text).2
    (s.runStatements 200 "f(true); f(false)").1.ended = true ∧
      (s.runStatements 200 "f(true); f(false)").1.category? ≠ some "UsageError" := by
  intro text s
  have hs : s.ReachedBy Program.WellPlaced :=
    .run 200 none (.new 8) (wellPlaced_of_all (by decide +kernel))
  have hcalls : ∀ p, Program.parse "f(true); f(false)" = .ok p → p.WellPlaced :=
    wellPlaced_of_all (by decide +kernel)
  obtain ⟨-, hstatements, -⟩ := wellPlaced_not_usageError.1 hs hcalls 200 none
  exact ⟨by decide +kernel, hstatements⟩

-- out of place, the same signals end the run
example : ((Session.new 8).run 200 "def f() do break end while true do f() end").1.category? =
    some "UsageError" := by
  decide +kernel

end Session

end AtomScript
