import AtomScript.Proofs.Session.Builtins

/-!
# Binding a built-in name

The language binds names in six ways: `x = e`, `let x = e`, `def x(…)`, the patterns `{x, …} = e`
and `[x, …] = e`, and the parameters of `def` and `fn`.  `Attempts` says of each when it comes to
the step of binding a given name: after the right-hand side has been evaluated, the names before it
in the pattern bound, the call entered.  For a built-in name that step is refused
(`Attempts.rejected`), in every scope and in every session reached.
-/

namespace AtomScript

open Eval

/-- The scope of the value, if it is a function, is one of the state. -/
def State.Knows (st : State) (v : Value) : Prop :=
  ∀ s, v.scope? = some s → s < st.scopes.size

/-- The pattern of the given kind that is made of names. -/
def namePattern (kind : SequenceKind) (names : List String) : Expr :=
  match kind with
  | .tuple => .tuple (names.map .identifier)
  | .list => .list (names.map .identifier)

/-- Within the bounds, the computation comes from the state `st` to the step of binding `name`, and
finds the state `found` there. -/
inductive Attempts (b : Bounds) (name : String) (st : State) : {α : Type} → Eval α → State → Prop
  /-- `name = e`. -/
  | assignment {n : Nat} {i : ScopeId} {e : Expr} {v : Value} {found : State} :
    i < st.scopes.size → evalExpr n i e b st = (.value v, found) →
    Attempts b name st (evalExpr (n + 1) i (.bind (.identifier name) e)) found
  /-- `let name = e`. -/
  | declaration {n : Nat} {i : ScopeId} {e : Expr} {v : Value} {found : State} :
    i < st.scopes.size → evalExpr n i e b st = (.value v, found) →
    Attempts b name st (evalExpr (n + 1) i (.declare name e)) found
  /-- `def name(params) do body end`. -/
  | definition {n : Nat} {i : ScopeId} {params : List String} {body : List Stmt} {id : Nat}
      {found : State} :
    i < st.scopes.size → newIdentity b st = (.value id, found) →
    Attempts b name st (evalStmt (n + 1) i (.define name params body)) found
  /-- A tuple or list of names, of which those before `name` have been bound. -/
  | pattern {n : Nat} {i : ScopeId} {kind : SequenceKind} {e : Expr} {v : Value} {r : Ref}
      {names later : List String} {us ws : List Value} {u : Value} {evaluated found : State} :
    i < st.scopes.size → evalExpr n i e b st = (.value v, evaluated) →
    Native.sequenceRef? kind v = some r → (evaluated.heap.items r).toList = us ++ u :: ws →
    names.length = us.length → later.length = ws.length →
    bindNames i names us b evaluated = (.value (), found) →
    Attempts b name st (evalExpr (n + 1) i (.bind (namePattern kind (names ++ name :: later)) e))
      found
  /-- A parameter of a function made by `def`; the call has been entered, and the parameters before
  `name` have been bound. -/
  | parameter {n : Nat} {f : Function} {i : ScopeId} {names later : List String}
      {us ws : List Value} {u : Value} {entered found : State} :
    st.Knows (.function f) → (∀ v ∈ us, st.Knows v) → f.params = names ++ name :: later →
    names.length = us.length → later.length = ws.length → st.depth + 1 ≤ b.limit →
    newScope f.scope b { st with depth := st.depth + 1 } = (.value i, entered) →
    bindNames i names us b entered = (.value (), found) →
    Attempts b name st (callValue (n + 1) (.function f) (us ++ u :: ws)) found
  /-- A parameter of a function made by `fn`. -/
  | lambdaParameter {n : Nat} {f : Lambda} {i : ScopeId} {names later : List String}
      {us ws : List Value} {u : Value} {entered found : State} :
    st.Knows (.lambda f) → (∀ v ∈ us, st.Knows v) → f.params = names ++ name :: later →
    names.length = us.length → later.length = ws.length → st.depth + 1 ≤ b.limit →
    newScope f.scope b { st with depth := st.depth + 1 } = (.value i, entered) →
    bindNames i names us b entered = (.value (), found) →
    Attempts b name st (callValue (n + 1) (.lambda f) (us ++ u :: ws)) found

/-! ### What the forms do -/

section Equations

variable (n : Nat) (i : ScopeId) (name : String) (e : Expr)

/-- An assignment to a name evaluates, then gives the name the value. -/
theorem evalExpr_assignment : evalExpr (n + 1) i (.bind (.identifier name) e) =
    (evalExpr n i e >>= fun v => rebind i name v >>= fun _ => pure v) := by
  rw [evalExpr]

/-- A declaration evaluates, then declares. -/
theorem evalExpr_declaration : evalExpr (n + 1) i (.declare name e) =
    (evalExpr n i e >>= fun v => declare i name v >>= fun _ => pure v) := by
  rw [evalExpr]

/-- A pattern of names evaluates, then takes the value apart. -/
theorem evalExpr_namePattern (kind : SequenceKind) (names : List String) :
    evalExpr (n + 1) i (.bind (namePattern kind names) e) =
      (evalExpr n i e >>= matchSequence (evalExpr n i) i kind (names.map .identifier)) := by
  cases kind with
  | tuple =>
    unfold namePattern
    rw [evalExpr]
  | list =>
    unfold namePattern
    rw [evalExpr]

/-- A definition makes a function, then declares its name. -/
theorem evalStmt_definition (params : List String) (body : List Stmt) :
    evalStmt (n + 1) i (.define name params body) = (newIdentity >>= fun id =>
      declare i name (.function ⟨id, name, params, body, i⟩) >>= fun _ =>
        pure (.normal (.function ⟨id, name, params, body, i⟩))) := by
  rw [evalStmt]

/-- A call of a named function checks, then binds its parameters in a scope of its own. -/
theorem callValue_function (f : Function) (args : List Value) :
    callValue (n + 1) (.function f) args = (checkArity f.name f.params args >>= fun _ =>
      frame (newScope f.scope >>= fun j => bindNames j f.params args >>= fun _ =>
        runBlock (evalStmt n j) .null f.body >>= callResult f.name)) := by
  rw [callValue]

/-- A call of a function written in place checks, then binds its parameters likewise. -/
theorem callValue_lambda (f : Lambda) (args : List Value) :
    callValue (n + 1) (.lambda f) args =
      (checkArity "anonymous function" f.params args >>= fun _ =>
        frame (newScope f.scope >>= fun j => bindNames j f.params args >>= fun _ =>
          evalExpr n j f.body)) := by
  rw [callValue]

end Equations

/-! ### The step of binding -/

section Step

variable {n i : Nat} {st found : State} {name : String} {v : Value} (b : Bounds) (u : Value)
  (hst : builtinRegime.Inv n st) (hi : i ≤ n) (hb : (name, v) ∈ builtins)

include hst hi hb

/-- Declaring a built-in name is refused. -/
theorem declare_builtin :
    declare i name u b st = (.error (.constant name), st) := by
  refine act_of_error ?_
  rw [ScopeTree.declareIn_builtin hst.2.1 hst.2.2 hi hb]

/-- Assigning to a built-in name is refused. -/
theorem assign_builtin :
    assign i name u b st = (.error (.constant name), st) := by
  refine act_of_error ?_
  rw [ScopeTree.assignIn_builtin hst.2.1 hst.2.2 hi hb]

/-- Whichever of the two ways is taken. -/
theorem rebind_builtin :
    rebind i name u b st = (.error (.constant name), st) := by
  have hread : reading (fun st => st.scopes.contains i name) b st =
      (.value (st.scopes.contains i name), st) := rfl
  unfold rebind
  rw [bind_of_value hread]
  -- the name is known from every scope, but nothing depends on that here
  split
  · exact assign_builtin b u hst hi hb
  · exact declare_builtin b u hst hi hb

end Step

/-- The first name is declared before the others. -/
theorem bindNames_cons (i : ScopeId) (name : String) (names : List String) (v : Value)
    (vs : List Value) :
    bindNames i (name :: names) (v :: vs) =
      (declare i name v >>= fun _ => bindNames i names vs) := rfl

/-- Names are declared in order, so the first ones can be split off. -/
theorem bindNames_append {i : ScopeId} {names later : List String} {us ws : List Value}
    {b : Bounds} {st found : State} (hlen : names.length = us.length)
    (h : bindNames i names us b st = (.value (), found)) :
    bindNames i (names ++ later) (us ++ ws) b st = bindNames i later ws b found := by
  induction names generalizing us st with
  | nil =>
    rw [List.length_nil, eq_comm, List.length_eq_zero_iff] at hlen
    subst hlen
    cases h
    rfl
  | cons name names ih =>
    cases us with
    | nil => cases hlen
    | cons u us =>
      rw [bindNames_cons] at h
      rw [List.cons_append, List.cons_append, bindNames_cons]
      -- the names before have all been bound, so no declaration among them failed
      rcases hd : declare i name u b st with ⟨_ | e | _, mid⟩
      · rw [bind_of_value hd] at h ⊢
        exact ih (Nat.succ.inj hlen) h
      · rw [bind_of_error hd] at h
        cases h
      · rw [bind_of_exhausted hd] at h
        cases h

/-- **Binding names in order** stops at a built-in one. -/
theorem bindNames_builtin {n i : Nat} {names later : List String} {us ws : List Value} {u v : Value}
    {b : Bounds} {st found : State} {name : String} (hst : builtinRegime.Inv n found) (hi : i ≤ n)
    (hb : (name, v) ∈ builtins) (hlen : names.length = us.length)
    (h : bindNames i names us b st = (.value (), found)) :
    bindNames i (names ++ name :: later) (us ++ u :: ws) b st =
      (.error (.constant name), found) := by
  rw [bindNames_append hlen h, bindNames_cons]
  exact bind_of_error (declare_builtin b u hst hi hb)

/-- A pattern of names has these names. -/
theorem patternNames?_identifiers {names : List String} (h : names ≠ []) :
    patternNames? (names.map .identifier) = some names := by
  have hall : (names.map Expr.identifier).mapM Expr.name? = some names := by
    clear h
    induction names with
    | nil => rfl
    | cons name names ih => simp [ih, Expr.name?]
  unfold patternNames?
  rw [if_neg (by simpa using h), hall]

/-- The match itself, once the value has been found to be a sequence of the right length. -/
theorem matchSequence_of_names {eval : Expr → Eval Value} {i : ScopeId} {kind : SequenceKind}
    {names : List String} {v : Value} {r : Ref} {vs : List Value} {b : Bounds} {st : State}
    (hne : names ≠ []) (href : Native.sequenceRef? kind v = some r)
    (hitems : (st.heap.items r).toList = vs) (hlen : names.length = vs.length) :
    matchSequence eval i kind (names.map .identifier) v b st =
      (bindNames i names vs >>= fun _ => pure v) b st := by
  have hread : items r b st = (.value (st.heap.items r), st) := rfl
  unfold matchSequence
  simp only [href]
  rw [bind_of_value hread, hitems, if_neg (by simpa using hlen.symm),
    patternNames?_identifiers hne]

/-! ### Every form is refused -/

section Attempts

variable {α : Type} {b : Bounds} {name : String} {st found : State} {x : Eval α} {v : Value}

/-- What a run leads to from a state in which the built-in names are intact. -/
theorem inv_of_run {n : Nat} {Q : Nat → α → Prop} (hst : builtinRegime.Inv n st)
    (hx : builtinRegime.Comp n Q x) {a : α} (h : x b st = (.value a, found)) :
    ∃ m, n ≤ m ∧ builtinRegime.Inv m found ∧ Q m a := by
  obtain ⟨-, m, hle, hinv, hQ⟩ := hx b (fun _ _ _ _ => trivial) st hst
  rw [h] at hinv hQ
  exact ⟨m, hle, hinv, hQ⟩

/-- A state knows the values of its scopes. -/
theorem knows_iff {n : Nat} (hst : builtinRegime.Inv n st) : st.Knows v ↔ v.ScopedBy n := by
  unfold State.Knows Value.ScopedBy
  rw [hst.2.2.size]
  simp only [Nat.lt_succ_iff]

/-- A call whose parameters include a built-in name: the body is not reached. -/
theorem call_builtin {n i : Nat} {s : ScopeId} {names later : List String} {us ws : List Value}
    {u : Value} {entered : State} {body : ScopeId → Eval Value} (hst : builtinRegime.Inv n st)
    (hb : (name, v) ∈ builtins) (hs : s ≤ n) (hus : ∀ u ∈ us, u.ScopedBy n)
    (hlen : names.length = us.length) (hdepth : st.depth + 1 ≤ b.limit)
    (hscope : newScope s b { st with depth := st.depth + 1 } = (.value i, entered))
    (hbind : bindNames i names us b entered = (.value (), found)) :
    frame (newScope s >>= fun j =>
        bindNames j (names ++ name :: later) (us ++ u :: ws) >>= fun _ => body j) b st =
      (.error (.constant name), { found with depth := found.depth - 1 }) := by
  -- entering a call changes the count of active calls, of which the invariant says nothing
  have hentry : builtinRegime.Inv n { st with depth := st.depth + 1 } := hst
  obtain ⟨m, hm, hentered, hi⟩ := inv_of_run hentry (builtinRegime.comp_newScope hs) hscope
  have hvals : builtinLogic.Vals m us := fun u hu => (hus u hu).mono hm
  obtain ⟨k, hk, hfound, -⟩ := inv_of_run hentered
    (Logic.bindNames (L := builtinLogic) hi hvals) hbind
  -- the call has been entered, and its scope has been made inside that of the function
  refine frame_of_error hdepth ?_
  rw [bind_of_value hscope]
  exact bind_of_error (bindNames_builtin hfound (Nat.le_trans hi hk) hb hlen hbind)

/-- With an argument for each parameter the check passes. -/
theorem checkArity_of_eq {callee : String} {params : List String} {args : List Value}
    (h : params.length = args.length) : checkArity callee params args b st = (.value (), st) := by
  unfold checkArity
  rw [if_pos h]
  rfl

/-- **The step is refused**, and nothing but the count of active calls changes after it. -/
theorem Attempts.rejected {n : Nat} (h : Attempts b name st x found)
    (hst : builtinRegime.Inv n st) (hb : (name, v) ∈ builtins) :
    ∃ d, x b st = (.error (.constant name), { found with depth := d }) := by
  cases h with
  | assignment hi he =>
    rw [hst.2.2.size, Nat.lt_succ_iff] at hi
    obtain ⟨m, hm, hfound, -⟩ := inv_of_run hst ((builtinLogic.evaluates _).expr hi) he
    refine ⟨found.depth, ?_⟩
    rw [evalExpr_assignment, bind_of_value he]
    exact bind_of_error (rebind_builtin b _ hfound (Nat.le_trans hi hm) hb)
  | declaration hi he =>
    rw [hst.2.2.size, Nat.lt_succ_iff] at hi
    obtain ⟨m, hm, hfound, -⟩ := inv_of_run hst ((builtinLogic.evaluates _).expr hi) he
    refine ⟨found.depth, ?_⟩
    rw [evalExpr_declaration, bind_of_value he]
    exact bind_of_error (declare_builtin b _ hfound (Nat.le_trans hi hm) hb)
  | definition hi hid =>
    rw [hst.2.2.size, Nat.lt_succ_iff] at hi
    obtain ⟨m, hm, hfound, -⟩ := inv_of_run hst builtinLogic.newIdentity hid
    refine ⟨found.depth, ?_⟩
    rw [evalStmt_definition, bind_of_value hid]
    exact bind_of_error (declare_builtin b _ hfound (Nat.le_trans hi hm) hb)
  | @pattern n' i kind e w r names later us ws u evaluated found hi he href hitems hus hws hbind =>
    rw [hst.2.2.size, Nat.lt_succ_iff] at hi
    obtain ⟨m, hm, hevaluated, -⟩ := inv_of_run hst ((builtinLogic.evaluates _).expr hi) he
    -- the elements are values of the heap, so binding the names before keeps the invariant
    have hvals : builtinLogic.Vals m us := fun a ha =>
      hevaluated.1.items (r := r) (by rw [← Array.mem_toList_iff, hitems]; simp [ha])
    obtain ⟨k, hk, hfound, -⟩ := inv_of_run hevaluated
      (Logic.bindNames (L := builtinLogic) (Nat.le_trans hi hm) hvals) hbind
    have hi' : i ≤ k := Nat.le_trans (Nat.le_trans hi hm) hk
    refine ⟨found.depth, ?_⟩
    rw [evalExpr_namePattern, bind_of_value he,
      matchSequence_of_names (by simp) href hitems (by simp [hus, hws])]
    exact bind_of_error (bindNames_builtin hfound hi' hb hus hbind)
  | @parameter n' f i names later us ws u entered found hf hus hparams hlen hlen' hdepth hscope
      hbind =>
    have hs : f.scope ≤ n := (knows_iff hst).1 hf f.scope rfl
    refine ⟨found.depth - 1, ?_⟩
    rw [callValue_function, bind_of_value (checkArity_of_eq (by simp [hparams, hlen, hlen'])),
      hparams]
    exact call_builtin hst hb hs (fun a ha => (knows_iff hst).1 (hus a ha)) hlen hdepth hscope hbind
  | @lambdaParameter n' f i names later us ws u entered found hf hus hparams hlen hlen' hdepth
      hscope hbind =>
    have hs : f.scope ≤ n := (knows_iff hst).1 hf f.scope rfl
    refine ⟨found.depth - 1, ?_⟩
    rw [callValue_lambda, bind_of_value (checkArity_of_eq (by simp [hparams, hlen, hlen'])),
      hparams]
    exact call_builtin hst hb hs (fun a ha => (knows_iff hst).1 (hus a ha)) hlen hdepth hscope hbind

end Attempts

/-- **Built-in names are immutable.**  In every session reached, and in every state that a run
passes through, a built-in name is a constant of the global scope with its first value; no other
scope has the name; from every scope it means that value; and every form that comes to the step of
binding it fails there. -/
theorem Session.builtins_immutable (s : Session) (hs : s.Reached fun _ _ _ => True) (name : String)
    (v : Value) (hb : (name, v) ∈ builtins) :
    (s.state.scopes.scope globalScope).find? name = some ⟨v, true⟩ ∧
    (∀ i, i ≠ globalScope → (s.state.scopes.scope i).find? name = none) ∧
    (∀ i < s.state.scopes.size, s.state.scopes.lookup i name = .ok v) ∧
    (∀ (α : Type) (x : Eval α) (b : Bounds) (found : State), Attempts b name s.state x found →
      ∃ d, x b s.state = (.error (.constant name), { found with depth := d })) ∧
    (Error.constant name).category = "ConstAssignmentError" := by
  -- the regime is an invariant of every session, and each part is read off its state
  obtain ⟨n, hst⟩ := builtinRegime.governs.holds hs
  obtain ⟨hglobal, hother⟩ := hst.2.1 _ hb
  refine ⟨hglobal, hother, fun i hi => ?_, fun α x b found h => h.rejected hst hb, rfl⟩
  rw [hst.2.2.size] at hi
  exact ScopeTree.lookup_builtin hst.2.1 hst.2.2 (Nat.le_of_lt_succ hi) hb

/-- After a call that tried to take `true` for a parameter and failed, `true` still is what it was,
and `let true = :no` fails too. -/
theorem Session.builtins_immutable_after_call :
    let s := ((Session.new 8).run 40 "def f(a, true) do return a end f(1, 2)").2
    s.state.scopes.size = 2 ∧ s.state.scopes.lookup 1 "true" = .ok (.boolean true) ∧
      ∃ st, evalExpr 2 1 (.declare "true" (.atom "no")) ⟨8, none⟩ s.state =
        (.error (.constant "true"), st) := by
  intro s
  have hsize : s.state.scopes.size = 2 := by decide +kernel
  have hs : s.Reached fun _ _ _ => True :=
    .run 40 _ none (.new 8) fun _ _ _ _ => trivial
  obtain ⟨-, -, hlookup, hforms, -⟩ := builtins_immutable s hs "true" (.boolean true)
    (by simp [builtins])
  obtain ⟨d, hd⟩ := hforms _ _ ⟨8, none⟩ s.state
    (.declaration (n := 1) (i := 1) (e := .atom "no") (by rw [hsize]; decide)
      (by rw [evalExpr]; rfl))
  exact ⟨hsize, hlookup 1 (by rw [hsize]; decide), _, hd⟩

end AtomScript
