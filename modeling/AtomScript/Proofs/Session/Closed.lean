import AtomScript.Proofs.Session.Memory

/-!
# Sessions are closed

The memory of a session is closed at all times: between texts, after errors, and in the middle of a
call.  `closedLogic` shows it for each step of the evaluator.  Its worlds are memories: what is
known along a run is that all that there was is still there, so a value at large goes on referring
to a cell of its kind, and the scope in which code runs goes on being there.

A session that is reset starts with another memory.  An interpreter keeps the one it has, so what is
said of its memory is said across resets: a reset makes one more global scope
(`Interpreter.closed_of_step`).

* `closedLogic` — the evaluator keeps memories closed, and only adds to them;
* `Memory.Closed.keepsOrder` — what this means for whatever is run in a state;
* `Session.closed_of_reached`, `Interpreter.closed_of_leads` — and for all that is reached.
-/

namespace AtomScript

variable {G : ScopeId → Prop}

/-! ### The regime of closed memories -/

/-- The regime: a world is the memory that the state has. -/
def closedRegime (G : ScopeId → Prop) : Regime where
  World := Memory
  le := Memory.Lasts
  le_refl := Memory.Lasts.refl
  le_trans := Memory.Lasts.trans
  -- the world of a state is its own memory, so a world only grows when the state does
  Holds m h t := ⟨h, t⟩ = m ∧ m.Closed G
  Allowed _ _ _ := True
  Done _ st after := st.memory.Lasts after.memory
  Fails _ := True
  fails_of_proper _ := trivial

namespace closedRegime

variable {α : Type} {m : Memory} {s : ScopeId} {name : String} {v : Value}

/-- A closed memory is the world its own state is in. -/
theorem inv_memory {st : State} (hst : st.memory.Closed G) : (closedRegime G).Inv st.memory st :=
  ⟨rfl, hst⟩

/-- An act that goes on to a later memory, which is closed if the one before was. -/
theorem comp_step {event : Event} {value : State → α} {next : State → State}
    {Q : Memory → α → Prop}
    (h : ∀ st, m = st.memory → m.Closed G →
      m.Lasts (next st).memory ∧ (next st).memory.Closed G ∧ Q (next st).memory (value st)) :
    (closedRegime G).Comp m Q (Eval.act event fun st => (.value (value st), next st)) := by
  refine Regime.comp_act_total fun st ⟨hst, hm⟩ _ => ?_
  subst hst
  obtain ⟨hlasts, hclosed, hQ⟩ := h st rfl hm
  exact ⟨hlasts, (next st).memory, hlasts, inv_memory hclosed, hQ⟩

/-- A new cell. -/
theorem comp_alloc {c : Cell} (hc : c.Holds m.Has m.Has) :
    (closedRegime G).Comp m
      (fun m' r => ∀ v : Value, v.ref? = some r → c.kind = v.kind → m'.Has v) (Eval.alloc c) := by
  refine comp_step fun st hst hm => ?_
  subst hst
  have hkinds := (st.heap.extends_push c).keepsKinds
  exact ⟨Memory.lasts_withHeap hkinds, hm.withHeap_of_holds hkinds (hm.cells.push hc),
    fun v hr hkind => Memory.has_push (m := st.memory) hr hkind⟩

/-- An edit of a cell. -/
theorem comp_edit {event : Event} (edit : Heap → Heap)
    (hkinds : ∀ h : Heap, h.KeepsKinds (edit h))
    (hedit : ∀ h : Heap, h.Holds m.Has m.Has → (edit h).Holds m.Has m.Has) :
    (closedRegime G).Comp m (fun _ _ => True)
      (Eval.act event fun st => (.value (), { st with heap := edit st.heap })) := by
  refine comp_step fun st hst hm => ?_
  subst hst
  exact ⟨Memory.lasts_withHeap (hkinds st.heap),
    hm.withHeap_of_holds (hkinds st.heap) (hedit st.heap hm.cells), trivial⟩

/-- An edit of elements that brings in present values only. -/
theorem comp_editItems {r : Ref} {f : Array Value → Array Value}
    (hf : ∀ xs : Array Value, ∀ x ∈ f xs, x ∈ xs ∨ m.Has x) :
    (closedRegime G).Comp m (fun _ _ => True) (Eval.editItems r f) :=
  comp_edit (fun h => h.editItems r f) (fun h => h.keepsKinds_editItems r f)
    fun _ hh => hh.editItems hf

/-- An edit of a table that brings in present values only. -/
theorem comp_editTable {event : Ref → Event} {r : Ref} {f : Heap → Table → Table}
    (hf : ∀ h t, t.Holds m.Has m.Has → (f h t).Holds m.Has m.Has) :
    (closedRegime G).Comp m (fun _ _ => True) (Eval.editTable event r f) :=
  comp_edit (fun h => h.editTable r (f h)) (fun h => h.keepsKinds_editTable r _)
    fun h hh => hh.editTable fun t ht => hf h t ht

/-- An act that touches neither the heap nor the scopes. -/
theorem comp_aside {event : Event} {value : State → α} {next : State → State}
    {Q : Memory → α → Prop} (hnext : ∀ st, (next st).memory = st.memory)
    (hQ : ∀ st, m = st.memory → m.Closed G → Q m (value st)) :
    (closedRegime G).Comp m Q (Eval.act event fun st => (.value (value st), next st)) := by
  refine comp_step fun st hst hm => ?_
  rw [hnext, ← hst]
  exact ⟨.refl m, hm, hQ st hst hm⟩

/-- A copy for a key refers to cells that are added for it. -/
theorem comp_detachKey (hv : m.Has v) :
    (closedRegime G).Comp m Memory.Has (Eval.detachKey v) := by
  refine Regime.comp_detachKey fun st copy g ⟨hst, hm⟩ hd => ?_
  subst hst
  obtain ⟨hlasts, hclosed, hcopy⟩ := hm.of_detach hv hd
  exact ⟨hlasts, _, hlasts, ⟨rfl, hclosed⟩, hcopy⟩

/-- A new scope inside one that is there. -/
theorem comp_newScope (hs : s < m.scopes.size) :
    (closedRegime G).Comp m (fun m' i => i < m'.scopes.size) (Eval.newScope s) := by
  refine comp_step fun st hst hm => ?_
  subst hst
  refine ⟨Memory.lasts_addChild _ s, hm.addChild hs, ?_⟩
  change st.scopes.size < (st.scopes.addChild s).size
  rw [ScopeTree.size_addChild]
  exact Nat.lt_succ_self _

/-- A name has a present value. -/
theorem comp_lookup : (closedRegime G).Comp m Memory.Has (Eval.lookup s name) := by
  refine Regime.comp_lookup fun st v ⟨hst, hm⟩ hv => ?_
  subst hst
  exact hm.bindings.lookup (fun _ _ => trivial) hv

/-- A name is bound where it is no constant. -/
theorem comp_binding {locate : ScopeTree → Except Error ScopeId} (hv : m.Has v)
    (hvariable : ∀ t o, locate t = .ok o → ∀ u, (t.scope o).find? name ≠ some ⟨u, true⟩) :
    (closedRegime G).Comp m (fun _ _ => True) (Eval.act .bind fun st =>
      match locate st.scopes with
      | .ok o => (.value (), { st with scopes := st.scopes.bind o name ⟨v, false⟩ })
      | .error e => (.error e, st)) := by
  refine Regime.comp_binding locate (fun _ _ _ => trivial) fun st o ⟨hst, hm⟩ ho => ?_
  -- a name that is found by `locate` holds a variable, so no built-in is overwritten
  subst hst
  have hlasts := Memory.lasts_bind st.memory o name ⟨v, false⟩
  exact ⟨hlasts, _, hlasts, rfl, hm.bind hv (hvariable st.scopes o ho)⟩

end closedRegime

/-- **The evaluator keeps memories closed**, and only adds to them. -/
def closedLogic (G : ScopeId → Prop) : Logic where
  World := Memory
  le := Memory.Lasts
  le_refl := Memory.Lasts.refl
  le_trans := Memory.Lasts.trans
  Inv := (closedRegime G).Inv
  Val := Memory.Has
  Key := Memory.Has
  Tab m t := t.Holds m.Has m.Has
  Scope m s := s < m.scopes.size
  Here m s := s < m.scopes.size
  Body _ := True
  Fails _ := True
  Comp := (closedRegime G).Comp
  val_mono hle hv := hle.has hv
  key_mono hle hv := hle.has hv
  tab_mono hle ht := ht.imp (fun _ hv => hle.has hv) fun _ hv => hle.has hv
  scope_mono hle hs := Nat.lt_of_lt_of_le hs hle.size
  here_mono hle hs := Nat.lt_of_lt_of_le hs hle.size
  here_scope hs := hs
  val_plain := Memory.has_of_isPlain
  val_function := by simp [Memory.has_function]
  val_lambda := Memory.has_lambda
  fails_of_proper _ := trivial
  fails_of_body _ _ _ := trivial
  -- the members of a collection are among what the heap of the state holds
  items := fun ⟨hst, hm⟩ _ _ _ hx => by
    subst hst
    exact hm.cells.items hx
  entries := fun ⟨hst, hm⟩ _ e he => by
    subst hst
    exact hm.cells.table _ e he
  tab_withRoom := Table.holds_withRoom _
  tab_insert _ ht hk hv := Heap.holds_insert _ ht hk hv
  pure := Regime.comp_pure (R := closedRegime G)
  bind := Regime.comp_bind (R := closedRegime G)
  fail := Regime.comp_fail (R := closedRegime G)
  exhausted := Regime.comp_exhausted (R := closedRegime G)
  reading := Regime.comp_reading (R := closedRegime G)
  frame := Regime.comp_frame (R := closedRegime G)
  newTuple hvs := Regime.comp_bind
    (closedRegime.comp_alloc (Cell.holds_tuple (by simpa using hvs)))
    fun _ _ _ hr => Regime.comp_pure (hr _ rfl rfl)
  newList hvs := Regime.comp_bind
    (closedRegime.comp_alloc (Cell.holds_list (by simpa using hvs)))
    fun _ _ _ hr => Regime.comp_pure (hr _ rfl rfl)
  newMap ht := Regime.comp_bind (closedRegime.comp_alloc (Cell.holds_map ht))
    fun _ _ _ hr => Regime.comp_pure (hr _ rfl rfl)
  editItems _ _ hf := closedRegime.comp_editItems hf
  put _ hk hv := closedRegime.comp_editTable fun h _ ht => h.holds_insert ht hk hv
  replace _ _ hv := closedRegime.comp_editTable fun h _ ht => h.holds_replace ht hv
  delete _ _ := closedRegime.comp_editTable fun h _ ht => h.holds_erase ht
  lendEntries _ := closedRegime.comp_aside (fun _ => rfl) fun _ hst hm e he => by
    subst hst
    obtain ⟨hk, hv⟩ := hm.cells.table _ e (Logic.sortedEntries_mem he)
    exact ⟨hk, hk, hv⟩
  detachKey := closedRegime.comp_detachKey
  newScope := closedRegime.comp_newScope
  lookup _ := closedRegime.comp_lookup
  declare _ hv := closedRegime.comp_binding hv fun _ _ ho => ScopeTree.find?_ne_of_declareIn ho
  assign _ hv := closedRegime.comp_binding hv fun _ _ ho => (ScopeTree.owns_of_assignIn ho).2
  newIdentity := closedRegime.comp_aside (fun _ => rfl) fun _ _ _ => trivial
  print := closedRegime.comp_aside (fun _ => rfl) fun _ _ _ => trivial

/-- The logic admits every statement. -/
theorem closedLogic.admits (stmt : Stmt) : (closedLogic G).Admits stmt :=
  ⟨fun _ _ => trivial, fun _ _ => trivial⟩

/-! ### Running texts -/

/-- From the state, the computation only adds to the memory, event by event, and leaves it closed,
however it ends. -/
structure Eval.KeepsClosed {α : Type} (x : Eval α) (G : ScopeId → Prop) (b : Bounds) (st : State) :
    Prop where
  events : x.Meets b st fun _ st after => st.memory.Lasts after.memory
  lasts : st.memory.Lasts (x b st).2.memory
  closed : (x b st).2.memory.Closed G

section Keeps

variable {α : Type} {g : ScopeId} {st : State}

/-- What obeys the logic keeps the memory closed, however it ends. -/
theorem Eval.keepsClosed_of_comp {x : Eval α} {Q : Memory → α → Prop}
    (hx : (closedRegime G).Comp st.memory Q x) (hst : st.memory.Closed G) (b : Bounds) :
    x.KeepsClosed G b st := by
  obtain ⟨hmeets, m, hlasts, ⟨hm, hclosed⟩, -⟩ :=
    hx b (fun _ _ _ _ => trivial) st (closedRegime.inv_memory hst)
  subst hm
  exact ⟨hmeets, hlasts, hclosed⟩

/-- A global scope of a closed memory is there. -/
theorem Memory.Closed.lt_size (hst : st.memory.Closed G) (hg : G g) :
    g < st.memory.scopes.size :=
  ((hst.globals g).1 hg).1

/-- Running a program for its last value keeps the memory closed. -/
theorem Memory.Closed.keeps_evalLast (hst : st.memory.Closed G) (hg : G g) (fuel : Nat)
    (p : Program) (b : Bounds) : (evalLast fuel g p).KeepsClosed G b st := by
  have hrun : (closedRegime G).Comp st.memory Memory.Has (evalLast fuel g p) :=
    Logic.evalLast (L := closedLogic G) (hst.lt_size hg) fun stmt _ => closedLogic.admits stmt
  exact Eval.keepsClosed_of_comp hrun hst b

/-- Running a program for all its values keeps the memory closed. -/
theorem Memory.Closed.keeps_evalProgram (hst : st.memory.Closed G) (hg : G g) (fuel : Nat)
    (p : Program) (b : Bounds) : (evalProgram fuel g p).KeepsClosed G b st := by
  have hrun : (closedRegime G).Comp st.memory (closedLogic G).Vals (evalProgram fuel g p) :=
    Logic.evalProgram (L := closedLogic G) (hst.lt_size hg) fun stmt _ => closedLogic.admits stmt
  exact Eval.keepsClosed_of_comp hrun hst b

/-- A text that is no program leaves everything as it is. -/
theorem Memory.Closed.performText {s : Session} (hs : s.state.memory.Closed G)
    {x : Program → Eval α} (watch : Option Watch)
    (hx : ∀ p, (x p).KeepsClosed G ⟨s.limit, watch⟩ s.state) (source : String) :
    s.state.memory.Lasts (s.performText source watch x).2.state.memory ∧
      (s.performText source watch x).2.state.memory.Closed G := by
  unfold Session.performText
  cases Program.parse source with
  | error e => exact ⟨.refl _, hs⟩
  | ok p => exact ⟨(hx p).lasts, (hx p).closed⟩

end Keeps

/-! ### Sessions -/

namespace Session

variable {s : Session}

/-- Every reached session has a closed memory. -/
theorem closed_of_reached (hs : s.Reached fun _ _ _ => True) :
    s.state.memory.Closed (· = globalScope) := by
  -- by induction on how the session was reached
  induction hs with
  | new limit hashing => exact Memory.closed_initial hashing
  | run fuel source watch _ _ ih =>
    exact (ih.performText watch (fun p => ih.keeps_evalLast rfl fuel p _) source).2
  | runStatements fuel source watch _ _ ih =>
    exact (ih.performText watch (fun p => ih.keeps_evalProgram rfl fuel p _) source).2
  | runLine fuel line watch _ _ ih =>
    exact (ih.performText watch (fun p => ih.keeps_evalProgram rfl fuel p _) line).2
  | takeOutput _ ih => exact ih
  | reset _ _ => exact Memory.closed_initial _

end Session

/-! ### Interpreters -/

namespace Interpreter

variable {i i' : Interpreter}

/-- What is done with an interpreter: a text is run in the scope that is global now, perhaps under a
watch that breaks the run off; what has been printed is taken; or it is reset. -/
inductive Step : Interpreter → Interpreter → Prop where
  | run {i : Interpreter} (fuel : Nat) (source : String) (watch : Option Watch) :
    Step i { i with
      toSession := (i.toSession.performText source watch (evalLast fuel i.global)).2 }
  | runStatements {i : Interpreter} (fuel : Nat) (source : String) (watch : Option Watch) :
    Step i { i with
      toSession := (i.toSession.performText source watch (evalProgram fuel i.global)).2 }
  | takeOutput {i : Interpreter} : Step i { i with toSession := i.toSession.takeOutput.2 }
  | reset {i : Interpreter} : Step i i.reset

/-- Steps, one after the other, lead to the other interpreter. -/
def Leads : Interpreter → Interpreter → Prop := Relation.ReflTransGen Step

/-- Steps from a new interpreter lead to it. -/
def Reached (i : Interpreter) : Prop := ∃ limit hashing, (new limit hashing).Leads i

/-- **One step** leads to a later memory, which is closed as well. -/
theorem closed_of_step (h : i.Step i') (hi : i.state.memory.Closed G) (hg : G i.global) :
    i.state.memory.Lasts i'.state.memory ∧ ∃ G', i'.state.memory.Closed G' ∧ G' i'.global := by
  cases h with
  | run fuel source watch =>
    obtain ⟨hlasts, hclosed⟩ :=
      hi.performText watch (fun p => hi.keeps_evalLast hg fuel p _) source
    exact ⟨hlasts, G, hclosed, hg⟩
  | runStatements fuel source watch =>
    obtain ⟨hlasts, hclosed⟩ :=
      hi.performText watch (fun p => hi.keeps_evalProgram hg fuel p _) source
    exact ⟨hlasts, G, hclosed, hg⟩
  | takeOutput => exact ⟨.refl _, G, hi, hg⟩
  | reset =>
    -- the new global scope joins the old ones, to which functions may still lead
    refine ⟨Memory.lasts_addGlobal _, fun o => G o ∨ o = i.state.scopes.size, ?_, .inr rfl⟩
    exact hi.addGlobal fun _ => Iff.rfl

/-- From a closed memory every later one is closed, and what was there lasts. -/
theorem closed_of_leads (h : i.Leads i') (hi : ∃ G, i.state.memory.Closed G ∧ G i.global) :
    i.state.memory.Lasts i'.state.memory ∧ ∃ G, i'.state.memory.Closed G ∧ G i'.global := by
  induction h with
  | refl => exact ⟨.refl _, hi⟩
  | tail _ hstep ih =>
    obtain ⟨hlasts, G, hclosed, hg⟩ := ih
    obtain ⟨hlasts', hnext⟩ := closed_of_step hstep hclosed hg
    exact ⟨hlasts.trans hlasts', hnext⟩

/-- Every reached interpreter has a closed memory. -/
theorem closed_of_reached (hi : i.Reached) : ∃ G, i.state.memory.Closed G ∧ G i.global := by
  obtain ⟨limit, hashing, h⟩ := hi
  exact (closed_of_leads h ⟨_, Memory.closed_initial hashing, rfl⟩).2

end Interpreter

/-! ### What is reached -/

/-- The memory is in order, and stays so in the course of whatever is run in the scope `g`, one of
the global ones. -/
structure State.KeepsOrder (G : ScopeId → Prop) (g : ScopeId) (st : State) : Prop where
  inOrder : st.memory.InOrder G
  global : G g
  evalLast : ∀ fuel p b, (evalLast fuel g p).KeepsClosed G b st
  evalProgram : ∀ fuel p b, (evalProgram fuel g p).KeepsClosed G b st

/-- A closed memory is in order and stays so. -/
theorem Memory.Closed.keepsOrder {st : State} {g : ScopeId} (hst : st.memory.Closed G)
    (hg : G g) : st.KeepsOrder G g :=
  ⟨hst.inOrder, hg, hst.keeps_evalLast hg, hst.keeps_evalProgram hg⟩

/-- **States are closed, and scope chains are finite.**  In every session that is reached, by texts
that end in any way or are broken off anywhere, all cells and scopes that are mentioned by bindings,
elements, keys, values and functions are there, the cells with the kinds that the mentions have;
every scope was made after the one around it, so that going outwards ends, at the global scope; and
a constant is bound where it is one.  Every event of a run leaves all cells with their kinds and all
scopes where they were made.  All this is so of interpreters as well, whatever steps are taken, and
of them also across resets, which leave everything in memory. -/
theorem reached_keepsOrder :
    (∀ s : Session, s.Reached (fun _ _ _ => True) →
      s.state.KeepsOrder (· = globalScope) globalScope) ∧
    ∀ i i' : Interpreter, i.Reached → i.Leads i' →
      (∃ G, i'.state.KeepsOrder G i'.global) ∧ i.state.memory.Lasts i'.state.memory := by
  refine ⟨fun s hs => (Session.closed_of_reached hs).keepsOrder rfl, fun i i' hi h => ?_⟩
  have hstart := Interpreter.closed_of_reached hi
  obtain ⟨hlasts, G, hclosed, hg⟩ := Interpreter.closed_of_leads h hstart
  exact ⟨⟨G, hclosed.keepsOrder hg⟩, hlasts⟩

/-- The text is broken off in the middle of a call, where a list that contains itself is bound in
the scope of the call; and in an interpreter that has been reset, the list is still a list, and the
scope still inside the scope that was global then. -/
theorem reached_keepsOrder_midway :
    let text := "def f(m) do List.append(m, m) print(m) end f([])"
    let watch : Watch := fun event _ _ => event != .print
    let s := ((Session.new 10).run 60 text (some watch)).2
    let i := { Interpreter.new 10 with toSession := s }
    (((s.state.scopes.scope 1).find? "m").map (fun b => (b.value.kind, b.value.ref?)) =
        some (.list, some 0) ∧
      (∃ c, s.state.heap.cells[0]? = some c ∧ c.kind = .list) ∧
      s.state.scopes.outermost 1 = globalScope) ∧
    ((∃ c, i.reset.state.heap.cells[0]? = some c ∧ c.kind = .list) ∧
      (i.reset.state.scopes.scope 1).outer = [globalScope]) := by
  intro text watch s i
  have hreached : s.Reached fun _ _ _ => True :=
    .run 60 text (some watch) (.new 10) fun _ _ _ _ => trivial
  -- what is where in the state is found out by running the text
  obtain ⟨hsize, hm, houter⟩ : 1 < s.state.scopes.size ∧
      ((s.state.scopes.scope 1).find? "m").map (fun b => (b.value.kind, b.value.ref?)) =
        some (.list, some 0) ∧
      (s.state.scopes.scope 1).outer = [globalScope] := by decide +kernel
  have horder := (reached_keepsOrder.1 s hreached).inOrder
  obtain ⟨b, hfind, hb⟩ := Option.map_eq_some_iff.1 hm
  obtain ⟨hlist, href⟩ := Prod.mk.inj hb
  obtain ⟨c, hc, hkind⟩ := (horder.bindings 1 trivial "m" b hfind).cell 0 href
  rw [hlist] at hkind
  have hstep : (Interpreter.new 10).Step i := .run 60 text (some watch)
  have hlasts := (reached_keepsOrder.2 i i.reset ⟨10, .arrival, .single hstep⟩ (.single .reset)).2
  refine ⟨⟨hm, ⟨c, hc, hkind⟩, horder.outermost 1 hsize⟩, ?_, ?_⟩
  · obtain ⟨c', hc', hkind'⟩ := hlasts.kinds 0 c hc
    exact ⟨c', hc', hkind'.trans hkind⟩
  · exact (hlasts.outer 1 hsize).trans houter

end AtomScript
