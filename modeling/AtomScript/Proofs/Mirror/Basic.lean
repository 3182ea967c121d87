import AtomScript.Proofs.Eval.Run
import AtomScript.Proofs.Heap.Copying
import AtomScript.Proofs.Scope.Shift

/-!
# Computations that mirror each other

`Mirrors σ f x y` says that `y` does to a shifted state what `x` does to the state itself: it ends
in the same way, with the result carried over by `f`, and the states are again a state and its
shifted copy.  There is a rule for each primitive, for putting computations together and for lists
of them.

Runs are unwatched here: a watch is shown the states, and may look at addresses.
-/

namespace AtomScript

/-- The second state is the first one, shifted, and its maps are gone through in the same order. -/
structure State.Shifted (σ : Shift) (st st' : State) : Prop where
  heap : st.heap.Shifted σ st'.heap
  hashing : Heap.HashedAlike σ st.heap st'.heap
  scopes : st.scopes.Shifted σ st'.scopes
  functions : st'.functions = σ.functions + st.functions
  depth : st'.depth = st.depth
  output : st'.output = st.output

/-- The ending with its value carried over. -/
def Ending.map {α β : Type} (f : α → β) : Ending α → Ending β
  | .value a => .value (f a)
  | .error e => .error e
  | .exhausted => .exhausted

namespace Eval

/-- What `x` does to a state, `y` does to its shifted copy. -/
def Mirrors {α β : Type} (σ : Shift) (f : α → β) (x : Eval α) (y : Eval β) : Prop :=
  ∀ limit st st', st.Shifted σ st' →
    (y ⟨limit, none⟩ st').1 = (x ⟨limit, none⟩ st).1.map f ∧
      (x ⟨limit, none⟩ st).2.Shifted σ (y ⟨limit, none⟩ st').2

variable {σ : Shift} {α β γ δ : Type} {f : α → β} {g : γ → δ}

/-! ### Putting computations together -/

/-- Giving a value mirrors itself. -/
theorem mirrors_pure (a : α) : Mirrors σ f (pure a) (pure (f a)) :=
  fun _ _ _ hst => ⟨rfl, hst⟩

/-- Failing mirrors itself: an error has no address in it. -/
theorem mirrors_fail (e : Error) : Mirrors σ f (fail e) (fail e) :=
  fun _ _ _ hst => ⟨rfl, hst⟩

/-- Running out of fuel mirrors itself. -/
theorem mirrors_exhausted : Mirrors σ f exhausted exhausted :=
  fun _ _ _ hst => ⟨rfl, hst⟩

/-- Reading from the state, if shifted states are read alike. -/
theorem mirrors_reading {read : State → α} {read' : State → β}
    (h : ∀ st st', st.Shifted σ st' → read' st' = f (read st)) :
    Mirrors σ f (reading read) (reading read') := by
  intro limit st st' hst
  refine ⟨?_, hst⟩
  change Ending.value (read' st') = .value (f (read st))
  rw [h st st' hst]

/-- A step on the state, if it takes shifted states to shifted ones. -/
theorem mirrors_act {event event' : Event} {act : State → Ending α × State}
    {act' : State → Ending β × State}
    (h : ∀ st st', st.Shifted σ st' →
      (act' st').1 = (act st).1.map f ∧ (act st).2.Shifted σ (act' st').2) :
    Mirrors σ f (Eval.act event act) (Eval.act event' act') :=
  fun _ st st' hst => h st st' hst

/-- **Two mirrored runs** end in the same way. -/
theorem Mirrors.run {x : Eval α} {y : Eval β} (hxy : Mirrors σ f x y) (limit : Nat) {st st' : State}
    (hst : st.Shifted σ st') :
    ∃ after after', after.Shifted σ after' ∧
      ((∃ a, x ⟨limit, none⟩ st = (.value a, after) ∧
          y ⟨limit, none⟩ st' = (.value (f a), after')) ∨
        (∃ e, x ⟨limit, none⟩ st = (.error e, after) ∧ y ⟨limit, none⟩ st' = (.error e, after')) ∨
        (x ⟨limit, none⟩ st = (.exhausted, after) ∧
          y ⟨limit, none⟩ st' = (.exhausted, after'))) := by
  obtain ⟨hending, hafter⟩ := hxy limit st st' hst
  refine ⟨_, _, hafter, ?_⟩
  generalize x ⟨limit, none⟩ st = ran, y ⟨limit, none⟩ st' = ran' at hending
  obtain ⟨ending, after⟩ := ran
  obtain ⟨ending', after'⟩ := ran'
  obtain rfl : ending' = ending.map f := hending
  cases ending with
  | value a => exact .inl ⟨a, rfl, rfl⟩
  | error e => exact .inr (.inl ⟨e, rfl, rfl⟩)
  | exhausted => exact .inr (.inr ⟨rfl, rfl⟩)

/-- **One after the other.** -/
theorem Mirrors.bind {x : Eval α} {y : Eval β} {p : α → Eval γ} {q : β → Eval δ}
    (hxy : Mirrors σ f x y) (hpq : ∀ a, Mirrors σ g (p a) (q (f a))) :
    Mirrors σ g (x >>= p) (y >>= q) := by
  intro limit st st' hst
  obtain ⟨after, after', hafter, ⟨a, hx, hy⟩ | ⟨e, hx, hy⟩ | ⟨hx, hy⟩⟩ := hxy.run limit hst
  · rw [bind_of_value hx, bind_of_value hy]
    exact hpq a limit after after' hafter
  · rw [bind_of_error hx, bind_of_error hy]
    exact ⟨rfl, hafter⟩
  · rw [bind_of_exhausted hx, bind_of_exhausted hy]
    exact ⟨rfl, hafter⟩

/-- Both calls are refused, or both are made. -/
theorem Mirrors.frame {x : Eval α} {y : Eval β} (hxy : Mirrors σ f x y) :
    Mirrors σ f (Eval.frame x) (Eval.frame y) := by
  intro limit st st' hst
  by_cases hle : st.depth + 1 ≤ limit
  -- both sides stand at one depth, so the limit refuses both calls or neither
  · have hle' : st'.depth + 1 ≤ limit := by
      rw [hst.depth]
      exact hle
    have hinside : State.Shifted σ { st with depth := st.depth + 1 }
        { st' with depth := st'.depth + 1 } :=
      { hst with depth := congrArg (· + 1) hst.depth }
    obtain ⟨after, after', hafter, ⟨a, hx, hy⟩ | ⟨e, hx, hy⟩ | ⟨hx, hy⟩⟩ := hxy.run limit hinside
    -- leaving the frame undoes its one step of depth on both sides
    · rw [frame_of_value hle hx, frame_of_value hle' hy]
      exact ⟨rfl, { hafter with depth := congrArg (· - 1) hafter.depth }⟩
    · rw [frame_of_error hle hx, frame_of_error hle' hy]
      exact ⟨rfl, { hafter with depth := congrArg (· - 1) hafter.depth }⟩
    · rw [frame_of_exhausted hle hx, frame_of_exhausted hle' hy]
      -- a run out of fuel never leaves the frame
      exact ⟨rfl, hafter⟩
  · have hlt : (⟨limit, none⟩ : Bounds).limit < st.depth + 1 := Nat.lt_of_not_le hle
    have hlt' : (⟨limit, none⟩ : Bounds).limit < st'.depth + 1 := by
      rw [hst.depth]
      exact hlt
    rw [frame_of_lt hlt, frame_of_lt hlt']
    exact ⟨rfl, hst⟩

/-- A computation for each element of a list. -/
theorem mirrors_mapAll {p : α → Eval γ} {q : β → Eval δ}
    (hpq : ∀ a, Mirrors σ g (p a) (q (f a))) (as : List α) :
    Mirrors σ (List.map g) (mapAll p as) (mapAll q (as.map f)) := by
  induction as with
  | nil => exact mirrors_pure []
  | cons a as ih =>
    rw [List.map_cons, mapAll, mapAll]
    refine (hpq a).bind fun c => ih.bind fun cs => ?_
    exact mirrors_pure (c :: cs)

/-- A computation along a list, with what the one before gave. -/
theorem mirrors_foldAll {p : γ → α → Eval γ} {q : δ → β → Eval δ}
    (hpq : ∀ c a, Mirrors σ g (p c a) (q (g c) (f a))) (c : γ) (as : List α) :
    Mirrors σ g (foldAll p c as) (foldAll q (g c) (as.map f)) := by
  induction as generalizing c with
  | nil => exact mirrors_pure c
  | cons a as ih =>
    rw [List.map_cons, foldAll, foldAll]
    exact (hpq c a).bind ih

/-! ### The heap -/

/-- The text of a value does not show addresses. -/
theorem mirrors_inspect (v : Value) : Mirrors σ id (inspect v) (inspect (σ.value v)) :=
  mirrors_reading fun _ _ hst => hst.heap.inspect v

/-- The bare text of a value does not show addresses. -/
theorem mirrors_rawText (v : Value) : Mirrors σ id (rawText v) (rawText (σ.value v)) :=
  mirrors_reading fun _ _ hst => hst.heap.rawText v

/-- A new cell gets the shifted address. -/
theorem mirrors_alloc (c : Cell) : Mirrors σ (σ.cells + ·) (alloc c) (alloc (σ.cell c)) := by
  refine mirrors_act fun st st' hst => ⟨?_, { hst with heap := hst.heap.push c }⟩
  change Ending.value st'.heap.size = .value (σ.cells + st.heap.size)
  rw [hst.heap.size]

/-- A new tuple of shifted values is the shifted tuple. -/
theorem mirrors_newTuple (vs : List Value) :
    Mirrors σ σ.value (newTuple vs) (newTuple (vs.map σ.value)) := by
  have hcell : Cell.tuple (vs.map σ.value).toArray = σ.cell (.tuple vs.toArray) := by
    simp [Shift.cell]
  unfold newTuple
  rw [hcell]
  exact (mirrors_alloc _).bind fun r => mirrors_pure (Value.tuple r)

/-- A new list of shifted values is the shifted list. -/
theorem mirrors_newList (vs : List Value) :
    Mirrors σ σ.value (newList vs) (newList (vs.map σ.value)) := by
  have hcell : Cell.list (vs.map σ.value).toArray = σ.cell (.list vs.toArray) := by
    simp [Shift.cell]
  unfold newList
  rw [hcell]
  exact (mirrors_alloc _).bind fun r => mirrors_pure (Value.list r)

/-- A new map with a shifted table is the shifted map. -/
theorem mirrors_newMap (t : Table) : Mirrors σ σ.value (newMap t) (newMap (σ.table t)) :=
  (mirrors_alloc (.map t)).bind fun r => mirrors_pure (Value.map r)

/-- The elements at a shifted address. -/
theorem mirrors_items (r : Ref) :
    Mirrors σ (Array.map σ.value) (items r) (items (σ.cells + r)) :=
  mirrors_reading fun _ _ hst => hst.heap.items r

/-- The table at a shifted address. -/
theorem mirrors_table (r : Ref) : Mirrors σ σ.table (table r) (table (σ.cells + r)) :=
  mirrors_reading fun _ _ hst => hst.heap.table r

/-- An edit of elements, if it treats shifted elements alike. -/
theorem mirrors_editItems {edit edit' : Array Value → Array Value}
    (hedit : ∀ xs, edit' (xs.map σ.value) = (edit xs).map σ.value) (r : Ref) :
    Mirrors σ id (editItems r edit) (editItems (σ.cells + r) edit') :=
  mirrors_act fun _ _ hst => ⟨rfl, { hst with heap := hst.heap.editItems hedit r }⟩

/-- An edit of a table, if it treats shifted tables alike. -/
theorem mirrors_editTable (event : Ref → Event) {edit edit' : Heap → Table → Table}
    (hedit : ∀ h h' t, h.Shifted σ h' → edit' h' (σ.table t) = σ.table (edit h t)) (r : Ref) :
    Mirrors σ id (editTable event r edit) (editTable event (σ.cells + r) edit') :=
  mirrors_act fun _ _ hst =>
    ⟨rfl, { hst with heap := hst.heap.editTable (fun t => hedit _ _ t hst.heap) r }⟩

/-- Detaching a key: the copies, or the error, are alike because both heaps enumerate alike. -/
theorem mirrors_detachKey (v : Value) :
    Mirrors σ σ.value (detachKey v) (detachKey (σ.value v)) := by
  refine mirrors_act fun st st' hst => ?_
  obtain ⟨hok, herror⟩ := hst.heap.detach hst.hashing v
  cases hv : st.heap.detach v with
  | error kind =>
    rw [herror kind hv]
    exact ⟨rfl, hst⟩
  | ok r =>
    obtain ⟨g', hv', hg⟩ := hok r.1 r.2 hv
    -- the copying allocates cells and leaves the hash parameters alone
    have hhashing : Heap.HashedAlike σ r.2 g' := by
      unfold Heap.HashedAlike
      rw [Heap.hashing_of_detach hv', Heap.hashing_of_detach hv]
      exact hst.hashing
    rw [hv']
    exact ⟨rfl, { hst with heap := hg, hashing := hhashing }⟩

/-! ### Scopes -/

/-- A new scope gets the shifted address. -/
theorem mirrors_newScope (s : ScopeId) :
    Mirrors σ (σ.scopes + ·) (newScope s) (newScope (σ.scopes + s)) := by
  refine mirrors_act fun st st' hst => ⟨?_, { hst with scopes := hst.scopes.addChild s }⟩
  change Ending.value st'.scopes.size = .value (σ.scopes + st.scopes.size)
  rw [hst.scopes.size]

/-- A name is found with the shifted value, or not found on both sides. -/
theorem mirrors_lookup (s : ScopeId) (name : String) :
    Mirrors σ σ.value (lookup s name) (lookup (σ.scopes + s) name) := by
  refine Mirrors.bind (mirrors_reading fun _ _ hst => hst.scopes.lookup s name) fun found => ?_
  cases found with
  | ok v => exact mirrors_pure v
  | error e => exact mirrors_fail e

/-- Names are bound in the scope that is found for it. -/
theorem mirrors_binding {event : Event} {find find' : ScopeTree → Except Error ScopeId}
    (hfind : ∀ t t', t.Shifted σ t' → find' t' = (find t).map (σ.scopes + ·)) (name : String)
    (v : Value) :
    Mirrors σ id
      (act event fun st =>
        match find st.scopes with
        | .ok o => (.value (), { st with scopes := st.scopes.bind o name ⟨v, false⟩ })
        | .error e => (.error e, st))
      (act event fun st =>
        match find' st.scopes with
        | .ok o => (.value (), { st with scopes := st.scopes.bind o name ⟨σ.value v, false⟩ })
        | .error e => (.error e, st)) := by
  refine mirrors_act fun st st' hst => ?_
  -- `find` sees bindings only, which a shift of the scopes does not rename
  rw [hfind _ _ hst.scopes]
  cases find st.scopes with
  | ok o => exact ⟨rfl, { hst with scopes := hst.scopes.bind o name ⟨v, false⟩ }⟩
  | error e => exact ⟨rfl, hst⟩

/-- Declaring a name. -/
theorem mirrors_declare (s : ScopeId) (name : String) (v : Value) :
    Mirrors σ id (declare s name v) (declare (σ.scopes + s) name (σ.value v)) :=
  mirrors_binding (fun _ _ ht => ht.declareIn s name) name v

/-- Assigning to a name. -/
theorem mirrors_assign (s : ScopeId) (name : String) (v : Value) :
    Mirrors σ id (assign s name v) (assign (σ.scopes + s) name (σ.value v)) :=
  mirrors_binding (fun _ _ ht => ht.assignIn s name) name v

/-- Giving a name a value, in the scope that has it or in this one. -/
theorem mirrors_rebind (s : ScopeId) (name : String) (v : Value) :
    Mirrors σ id (rebind s name v) (rebind (σ.scopes + s) name (σ.value v)) := by
  have hcontains : Mirrors σ id (reading fun st => st.scopes.contains s name)
      (reading fun st => st.scopes.contains (σ.scopes + s) name) :=
    mirrors_reading fun _ _ hst => hst.scopes.contains s name
  refine hcontains.bind fun known => ?_
  cases known with
  | true => exact mirrors_assign s name v
  | false => exact mirrors_declare s name v

/-! ### Functions and output -/

/-- A new function gets the shifted identity. -/
theorem mirrors_newIdentity : Mirrors σ (σ.functions + ·) newIdentity newIdentity := by
  refine mirrors_act fun st st' hst => ⟨?_, ?_⟩
  · change Ending.value st'.functions = .value (σ.functions + st.functions)
    rw [hst.functions]
  · exact { hst with functions := congrArg (· + 1) hst.functions }

/-- Both sides print the same text. -/
theorem mirrors_print (p : Printed) : Mirrors σ id (print p) (print p) :=
  mirrors_act fun _ _ hst => ⟨rfl, { hst with output := congrArg (·.push p) hst.output }⟩

end Eval

end AtomScript
