import AtomScript.Proofs.Eval.Run
import AtomScript.Proofs.Program.Signals
import AtomScript.Proofs.Scope.Basic

/-!
# A logic of computations

What the programs of the language can do is bounded by what the primitive computations do, and every
computation of the evaluator is put together from these with `pure`, `bind`, a few failures and
`Eval.frame`.  A `Logic` is a judgement on computations, `Comp w Q x`, that follows this structure:
it has one rule for each primitive and one for each way of putting computations together.  Whatever
logic it is, it then holds of the whole evaluator (`Logic.evalExpr` and its companions in
`Proofs.Eval.Evaluator`), so a property of all programs takes no induction over programs of its own.

The judgement is made in a *world*, which stands for what is known about the state.  Worlds grow
along a run.  A world says which values may be at large (`Val`), which may be keys of maps (`Key`),
which tables may become maps (`Tab`), in which scopes code may be made (`Scope`) and run (`Here`).
`Comp w Q x` reads: from world `w`, the computation `x` does as it should, and when it ends with a
value, then in a world where `Q` holds of that value.  It may end with the errors that the logic
admits (`Fails`); all do that report anything but a signal that nothing takes.

* `Logic` — the judgement and its rules;
* `Logic.mapAll`, `Logic.foldAll`, … — the derived rules for lists of computations.
-/

namespace AtomScript

/-- The value neither refers to a cell nor holds a scope. -/
def Value.isPlain : Value → Bool
  | .tuple _ | .list _ | .map _ | .function _ | .lambda _ => false
  | _ => true

/-- The statement defines a function with the given body, itself or somewhere inside it. -/
inductive Stmt.Defines : Stmt → List Stmt → Prop where
  | here {name : String} {params : List String} {body : List Stmt} :
    Defines (.define name params body) body
  | inFunction {name : String} {params : List String} {body inner : List Stmt} {s : Stmt} :
    s ∈ body → Defines s inner → Defines (.define name params body) inner
  | inLoop {condition : Expr} {body inner : List Stmt} {s : Stmt} :
    s ∈ body → Defines s inner → Defines (.whileLoop condition body) inner
  | inClause {clauses : List Clause} {c : Clause} {inner : List Stmt} {s : Stmt} :
    c ∈ clauses → s ∈ c.body → Defines s inner → Defines (.conditional clauses) inner

/-- The definition that makes the function. -/
def Function.definition (f : Function) : Stmt :=
  .define f.name f.params f.body

/-- A judgement on computations that has a rule for each primitive of the evaluator. -/
structure Logic where
  /-- What may be known about the state. -/
  World : Type
  /-- The second world knows at least as much as the first. -/
  le : World → World → Prop
  le_refl : ∀ w, le w w
  le_trans : ∀ {u v w}, le u v → le v w → le u w
  /-- The state is as the world says. -/
  Inv : World → State → Prop
  /-- The value may be at large: held by a binding, an element, a map's value, an argument. -/
  Val : World → Value → Prop
  /-- The value may be a stored key. -/
  Key : World → Value → Prop
  /-- The table may become a map. -/
  Tab : World → Table → Prop
  /-- Functions may be made in the scope, and scopes inside it. -/
  Scope : World → ScopeId → Prop
  /-- Code may run in the scope. -/
  Here : World → ScopeId → Prop
  /-- The statements may be the body of a function. -/
  Body : List Stmt → Prop
  /-- A computation may end with the error. -/
  Fails : Error → Prop
  /-- From the world, the computation does as it should, and its value satisfies the predicate. -/
  Comp : {α : Type} → World → (World → α → Prop) → Eval α → Prop
  -- what is known stays known
  val_mono : ∀ {w w' v}, le w w' → Val w v → Val w' v
  key_mono : ∀ {w w' v}, le w w' → Key w v → Key w' v
  tab_mono : ∀ {w w' t}, le w w' → Tab w t → Tab w' t
  scope_mono : ∀ {w w' s}, le w w' → Scope w s → Scope w' s
  here_mono : ∀ {w w' s}, le w w' → Here w s → Here w' s
  here_scope : ∀ {w s}, Here w s → Scope w s
  -- values that are no aggregates
  val_plain : ∀ {w v}, v.isPlain = true → Val w v
  val_function : ∀ {w} {f : Function},
    Val w (.function f) ↔ Scope w f.scope ∧ ∀ body, f.definition.Defines body → Body body
  val_lambda : ∀ {w} {f : Lambda}, Val w (.lambda f) ↔ Scope w f.scope
  -- errors
  fails_of_proper : ∀ {e : Error}, e.isProper = true → Fails e
  fails_of_body : ∀ {body name k}, Body body → BodyExposes body k → k ≠ .returning →
    Fails (.loopControlInFunction name)
  -- what can be read
  items : ∀ {w st v r}, Inv w st → Val w v → v.ref? = some r → ∀ x ∈ st.heap.items r, Val w x
  entries : ∀ {w st r}, Inv w st → Val w (.map r) →
    ∀ e ∈ (st.heap.table r).entries, Key w e.key ∧ Val w e.value
  tab_withRoom : ∀ {w n}, Tab w (.withRoom n)
  tab_insert : ∀ {w st t k v}, Inv w st → Tab w t → Key w k → Val w v →
    Tab w (st.heap.insert t k v)
  -- putting computations together
  pure : ∀ {α : Type} {w} {Q : World → α → Prop} {a : α}, Q w a → Comp w Q (Pure.pure a)
  bind : ∀ {α β : Type} {w} {Q : World → α → Prop} {R : World → β → Prop} {x : Eval α}
    {f : α → Eval β}, Comp w Q x → (∀ w' a, le w w' → Q w' a → Comp w' R (f a)) →
    Comp w R (x >>= f)
  fail : ∀ {α : Type} {w} {Q : World → α → Prop} {e}, Fails e → Comp w Q (Eval.fail e)
  exhausted : ∀ {α : Type} {w} {Q : World → α → Prop}, Comp w Q Eval.exhausted
  reading : ∀ {α : Type} {w} {Q : World → α → Prop} {f : State → α},
    (∀ st, Inv w st → Q w (f st)) → Comp w Q (Eval.reading f)
  frame : ∀ {α : Type} {w} {Q : World → α → Prop} {x : Eval α},
    Comp w Q x → Comp w Q (Eval.frame x)
  -- the heap
  newTuple : ∀ {w vs}, (∀ v ∈ vs, Val w v) → Comp w Val (Eval.newTuple vs)
  newList : ∀ {w vs}, (∀ v ∈ vs, Val w v) → Comp w Val (Eval.newList vs)
  newMap : ∀ {w t}, Tab w t → Comp w Val (Eval.newMap t)
  editItems : ∀ {w v r f}, Val w v → v.ref? = some r →
    (∀ xs : Array Value, ∀ x ∈ f xs, x ∈ xs ∨ Val w x) →
    Comp w (fun _ _ => True) (Eval.editItems r f)
  put : ∀ {w r k v}, Val w (.map r) → Key w k → Val w v →
    Comp w (fun _ _ => True) (Eval.editTable .put r fun h t => h.insert t k v)
  replace : ∀ {w r k v}, Val w (.map r) → Key w k → Val w v →
    Comp w (fun _ _ => True) (Eval.editTable .replace r fun h t => h.replace t k v)
  delete : ∀ {w r k}, Val w (.map r) → Key w k →
    Comp w (fun _ _ => True) (Eval.editTable .delete r fun h t => h.erase t k)
  lendEntries : ∀ {w r}, Val w (.map r) →
    Comp w (fun w' es => ∀ e ∈ es, Key w' e.key ∧ Val w' e.key ∧ Val w' e.value)
      (Native.lendEntries r)
  detachKey : ∀ {w v}, Val w v → Comp w Key (Eval.detachKey v)
  -- scopes, functions and output
  newScope : ∀ {w s}, Scope w s → Comp w Here (Eval.newScope s)
  lookup : ∀ {w s name}, Here w s → Comp w Val (Eval.lookup s name)
  declare : ∀ {w s name v}, Here w s → Val w v → Comp w (fun _ _ => True) (Eval.declare s name v)
  assign : ∀ {w s name v}, Here w s → Val w v → Comp w (fun _ _ => True) (Eval.assign s name v)
  newIdentity : ∀ {w}, Comp w (fun _ _ => True) Eval.newIdentity
  print : ∀ {w p}, Comp w (fun _ _ => True) (Eval.print p)

namespace Logic

variable (L : Logic) {α β : Type} {w w' : L.World}

/-- All members of a list may be at large. -/
def Vals (w : L.World) (vs : List Value) : Prop := ∀ v ∈ vs, L.Val w v

variable {L}

theorem Vals.mono {vs : List Value} (hle : L.le w w') (h : L.Vals w vs) : L.Vals w' vs :=
  fun v hv => L.val_mono hle (h v hv)

theorem vals_nil : L.Vals w [] := fun v hv => absurd hv (by simp)

theorem vals_cons {v : Value} {vs : List Value} (hv : L.Val w v) (hvs : L.Vals w vs) :
    L.Vals w (v :: vs) := by
  intro u hu
  rcases List.mem_cons.1 hu with rfl | hu
  · exact hv
  · exact hvs u hu

theorem vals_pair {v u : Value} (hv : L.Val w v) (hu : L.Val w u) : L.Vals w [v, u] :=
  vals_cons hv (vals_cons hu vals_nil)

/-! ### Weakening and reading -/

/-- A weaker condition on the value will do. -/
theorem weaken {Q R : L.World → α → Prop} {x : Eval α} (hx : L.Comp w Q x)
    (h : ∀ w' a, L.le w w' → Q w' a → R w' a) : L.Comp w R x := by
  -- weakening is no rule of its own: the value is passed on by a computation that does nothing
  have hb : L.Comp w R (x >>= fun a => Pure.pure a) :=
    L.bind hx fun w' a hle hQ => L.pure (h w' a hle hQ)
  rwa [Eval.bind_pure] at hb

/-- Nothing is asked of what is read. -/
theorem reading_any {f : State → α} : L.Comp w (fun _ _ => True) (Eval.reading f) :=
  L.reading fun _ _ => trivial

theorem inspect {v : Value} : L.Comp w (fun _ _ => True) (Eval.inspect v) := reading_any

theorem rawText {v : Value} : L.Comp w (fun _ _ => True) (Eval.rawText v) := reading_any

/-- A failure that is not about signals. -/
theorem fail_proper {Q : L.World → α → Prop} {e : Error} (he : e.isProper = true) :
    L.Comp w Q (Eval.fail e) :=
  L.fail (L.fails_of_proper he)

/-- A failure whose message is read off the state first. -/
theorem fail_after {γ : Type} {Q : L.World → α → Prop} {f : State → γ} {e : γ → Error}
    (he : ∀ c, (e c).isProper = true) :
    L.Comp w Q (Eval.reading f >>= fun c => Eval.fail (e c)) :=
  L.bind reading_any fun _ c _ _ => fail_proper (he c)

theorem items_vals {v : Value} {r : Ref} (hv : L.Val w v) (hr : v.ref? = some r) :
    L.Comp w (fun w' xs => L.Vals w' xs.toList) (Eval.items r) :=
  L.reading fun _ hst x hx => L.items hst hv hr x (by simpa using hx)

/-! ### Lists of computations -/

/-- **A computation for each member.**  What each result satisfies must last, for the later
computations go on in later worlds. -/
theorem mapAll {Q : L.World → β → Prop} {f : α → Eval β} {as : List α}
    (mono : ∀ {u v b}, L.le u v → Q u b → Q v b)
    (hf : ∀ w' a, L.le w w' → a ∈ as → L.Comp w' Q (f a)) :
    L.Comp w (fun w' bs => ∀ b ∈ bs, Q w' b) (Eval.mapAll f as) := by
  induction as generalizing w with
  | nil =>
    unfold Eval.mapAll
    exact L.pure (by simp)
  | cons a as ih =>
    unfold Eval.mapAll
    refine L.bind (hf w a (L.le_refl w) List.mem_cons_self) fun w₁ b h₁ hb => ?_
    -- the first result has to outlive the computations that follow
    refine L.bind (ih fun w' a' hle ha' => ?_) fun w₂ bs h₂ hbs => ?_
    · exact hf w' a' (L.le_trans h₁ hle) (List.mem_cons_of_mem a ha')
    · refine L.pure fun c hc => ?_
      rcases List.mem_cons.1 hc with rfl | hc
      · exact mono h₂ hb
      · exact hbs c hc

theorem mapAll_vals {f : α → Eval Value} {as : List α}
    (hf : ∀ w' a, L.le w w' → a ∈ as → L.Comp w' L.Val (f a)) :
    L.Comp w L.Vals (Eval.mapAll f as) :=
  mapAll (Q := L.Val) (fun hle hv => L.val_mono hle hv) hf

/-- **A computation for each member, with a result carried along.** -/
theorem foldAll {Q : L.World → β → Prop} {f : β → α → Eval β} {as : List α} {b : β}
    (hf : ∀ w' b a, L.le w w' → a ∈ as → Q w' b → L.Comp w' Q (f b a)) (hb : Q w b) :
    L.Comp w Q (Eval.foldAll f b as) := by
  -- the world and the result carried along change together
  induction as generalizing w b with
  | nil =>
    unfold Eval.foldAll
    exact L.pure hb
  | cons a as ih =>
    unfold Eval.foldAll
    refine L.bind (hf w b a (L.le_refl w) List.mem_cons_self hb) fun w₁ b' h₁ hb' => ?_
    refine ih (fun w' c a' hle ha' hc => ?_) hb'
    exact hf w' c a' (L.le_trans h₁ hle) (List.mem_cons_of_mem a ha') hc

end Logic

end AtomScript
