import AtomScript.Proofs.Eval.Names
import AtomScript.Proofs.Scope.History
import AtomScript.Proofs.Session.BindingForms

/-!
# Destructuring

`{a, b, …} = e` and `[a, b, …] = e` first find the value of `e`, and then whether it is a sequence
of the right kind and length; until then no name is bound.  The names are then bound one after the
other, from the left, in the scope at hand.  A name that means a constant is refused, and nothing is
taken back: the names in front of it keep their new values (`destructuring_keeps_names_in_front`).

* `ScopeTree.BindsNames` — names bound to the values at their places;
* `Destructures` — the four ways in which a match ends;
* `destructuring_outcome` — it ends in the one that fits.
-/

namespace AtomScript

open Eval

variable {s : ScopeId} {kind : SequenceKind} {names : List String} {name : String} {v : Value}
  {us vs : List Value} {limit : Nat} {st : State}

/-! ### Binding names in order -/

/-- In the second tree the names are bound in the scope to the values at their places, where the
last place of a name counts.  Nothing else is different. -/
structure ScopeTree.BindsNames (t : ScopeTree) (s : ScopeId) (names : List String)
    (vs : List Value) (t' : ScopeTree) : Prop where
  same : t.SameBut (fun i name => i = s ∧ name ∈ names) t'
  bound : ∀ k name v, names[k]? = some name → vs[k]? = some v → name ∉ names.drop (k + 1) →
    (t'.scope s).find? name = some ⟨v, false⟩

namespace ScopeTree

variable {t t' : ScopeTree}

theorem BindsNames.nil (t : ScopeTree) (s : ScopeId) (vs : List Value) : t.BindsNames s [] vs t :=
  ⟨.refl t, fun _ _ _ hname => by simp at hname⟩

/-- The first name keeps its value unless it stands among the others as well. -/
theorem BindsNames.cons (hs : s < t.size)
    (h : (t.bind s name ⟨v, false⟩).BindsNames s names vs t') :
    t.BindsNames s (name :: names) (v :: vs) t' where
  same := by
    have hfirst : t.SameBut (fun i other => i = s ∧ other ∈ name :: names)
        (t.bind s name ⟨v, false⟩) := (SameBut.refl t).bind ⟨rfl, List.mem_cons_self⟩
    exact hfirst.trans (h.same.mono fun i other hi => ⟨hi.1, List.mem_cons_of_mem _ hi.2⟩)
  bound k other w hother hw hlast := by
    -- the first name has its value unless a later one is the same
    cases k with
    | zero =>
      cases hother
      cases hw
      rw [List.drop_one, List.tail_cons] at hlast
      rw [h.same.find? s name fun hmem => hlast hmem.2, find?_scope_bind,
        if_pos ⟨⟨rfl, hs⟩, rfl⟩]
    | succ k => exact h.bound k other w hother hw hlast

/-- Only the values at the places of the names matter. -/
theorem BindsNames.append (h : t.BindsNames s names us t') (hlen : names.length = us.length)
    (vs : List Value) : t.BindsNames s names (us ++ vs) t' where
  same := h.same
  bound k name v hname hv hlast := by
    have hk : k < us.length := hlen ▸ (List.getElem?_eq_some_iff.1 hname).1
    rw [List.getElem?_append_left hk] at hv
    exact h.bound k name v hname hv hlast

/-- A variable that is declared neither makes a constant nor hides one. -/
theorem isConstant_bind (hs : s < t.size) (hname : t.isConstant s name = false) (v : Value)
    (other : String) :
    (t.bind s name ⟨v, false⟩).isConstant s other = t.isConstant s other := by
  by_cases heq : name = other
  · subst heq
    rw [hname]
    unfold isConstant
    rw [resolve?_bind_self hs]
    rfl
  · unfold isConstant
    rw [resolve?_bind_of_ne heq]

end ScopeTree

theorem declare_of_variable (h : st.scopes.isConstant s name = false) :
    declare s name v ⟨limit, none⟩ st =
      (.value (), { st with scopes := st.scopes.bind s name ⟨v, false⟩ }) := by
  rcases st.scopes.declare_cases s name v false with ⟨hyes, -⟩ | ⟨-, hok⟩
  · rw [h] at hyes
    cases hyes
  · rw [st.declare_eq_settle, hok]
    rfl

theorem declare_of_constant (h : st.scopes.isConstant s name = true) :
    declare s name v ⟨limit, none⟩ st = (.error (.constant name), st) := by
  rcases st.scopes.declare_cases s name v false with ⟨-, hfails⟩ | ⟨hno, -⟩
  · rw [st.declare_eq_settle, hfails]
    rfl
  · rw [h] at hno
    cases hno

/-- **Names that mean no constants are bound, all of them.** -/
theorem bindNames_of_variables (limit : Nat) (hs : s < st.scopes.size)
    (hlen : names.length = vs.length)
    (hvariable : ∀ name ∈ names, st.scopes.isConstant s name = false) :
    ∃ t, bindNames s names vs ⟨limit, none⟩ st = (.value (), { st with scopes := t }) ∧
      st.scopes.BindsNames s names vs t ∧
      ∀ other, t.isConstant s other = st.scopes.isConstant s other := by
  induction names generalizing vs st with
  | nil =>
    rw [List.length_nil, eq_comm, List.length_eq_zero_iff] at hlen
    subst hlen
    exact ⟨st.scopes, rfl, .nil _ _ _, fun _ => rfl⟩
  | cons name names ih =>
    cases vs with
    | nil => cases hlen
    | cons v vs =>
      have hname := hvariable name List.mem_cons_self
      have hconstant := ScopeTree.isConstant_bind hs hname v
      -- the other names mean no constants after the first has been bound, either
      obtain ⟨t, hrun, hbinds, hsame⟩ := @ih vs
        { st with scopes := st.scopes.bind s name ⟨v, false⟩ }
        (by rwa [ScopeTree.size_bind]) (Nat.succ.inj hlen)
        (fun other hother => (hconstant other).trans
          (hvariable other (List.mem_cons_of_mem _ hother)))
      refine ⟨t, ?_, hbinds.cons hs, fun other => (hsame other).trans (hconstant other)⟩
      rw [bindNames_cons, bind_of_value (declare_of_variable hname)]
      exact hrun

/-- **At a name that means a constant it ends**, with the names in front of it bound. -/
theorem bindNames_of_constant (limit : Nat) {before later : List String} (hs : s < st.scopes.size)
    (hlen : (before ++ name :: later).length = vs.length)
    (hvariable : ∀ name ∈ before, st.scopes.isConstant s name = false)
    (hconstant : st.scopes.isConstant s name = true) :
    ∃ t, bindNames s (before ++ name :: later) vs ⟨limit, none⟩ st =
        (.error (.constant name), { st with scopes := t }) ∧
      st.scopes.BindsNames s before vs t := by
  -- the values are cut where the constant stands
  rw [List.length_append, List.length_cons] at hlen
  have hcut := List.take_append_drop before.length vs
  obtain ⟨u, ws, hdrop⟩ : ∃ u ws, vs.drop before.length = u :: ws := by
    refine List.exists_cons_of_length_pos ?_
    rw [List.length_drop]
    omega
  rw [hdrop] at hcut
  have hlen' : before.length = (vs.take before.length).length := by
    rw [List.length_take]
    omega
  obtain ⟨t, hrun, hbinds, hsame⟩ := bindNames_of_variables limit hs hlen' hvariable
  refine ⟨t, ?_, ?_⟩
  · rw [← hcut, bindNames_append hlen' hrun, bindNames_cons]
    exact bind_of_error (declare_of_constant ((hsame name).trans hconstant))
  · rw [← hcut]
    exact hbinds.append hlen' _

/-! ### The match -/

/-- The ways in which the value `v` is matched against a pattern of names, from the state in which
it has been found. -/
inductive Destructures (s : ScopeId) (kind : SequenceKind) (names : List String) (v : Value)
    (st : State) : Ending Value × State → Prop where
  /-- The value is no sequence of the kind. -/
  | wrongKind {e : Error} : (∀ r, v ≠ .ofSequence kind r) → e.category = "MatchError" →
    Destructures s kind names v st (.error e, st)
  /-- The sequence has another number of elements. -/
  | wrongLength {r : Ref} {e : Error} : v = .ofSequence kind r →
    (st.heap.items r).size ≠ names.length → e.category = "MatchError" →
    Destructures s kind names v st (.error e, st)
  /-- One of the names means a constant; those in front of the first such name have been bound. -/
  | constant {r : Ref} {before later : List String} {name : String} {t : ScopeTree} :
    v = .ofSequence kind r → (st.heap.items r).size = names.length →
    names = before ++ name :: later → (∀ name ∈ before, st.scopes.isConstant s name = false) →
    st.scopes.isConstant s name = true →
    st.scopes.BindsNames s before (st.heap.items r).toList t →
    Destructures s kind names v st
      (.error (.constant name), { st with scopes := t })
  /-- All names have been bound. -/
  | bound {r : Ref} {t : ScopeTree} :
    v = .ofSequence kind r → (st.heap.items r).size = names.length →
    (∀ name ∈ names, st.scopes.isConstant s name = false) →
    st.scopes.BindsNames s names (st.heap.items r).toList t →
    Destructures s kind names v st (.value v, { st with scopes := t })

theorem sequenceRef?_eq_some_iff {r : Ref} :
    Native.sequenceRef? kind v = some r ↔ v = .ofSequence kind r := by
  cases kind <;> cases v <;> simp [Native.sequenceRef?, Value.ofSequence]

/-- Either no name means a constant, or there is a first one that does. -/
theorem ScopeTree.exists_first_constant (t : ScopeTree) (s : ScopeId) (names : List String) :
    (∀ name ∈ names, t.isConstant s name = false) ∨
      ∃ before name later, names = before ++ name :: later ∧
        (∀ name ∈ before, t.isConstant s name = false) ∧ t.isConstant s name = true := by
  cases hfind : names.find? (t.isConstant s) with
  | none => exact .inl fun name hname => by simpa using List.find?_eq_none.1 hfind name hname
  | some name =>
    obtain ⟨hname, before, later, rfl, hbefore⟩ := List.find?_eq_some_iff_append.1 hfind
    exact .inr ⟨before, name, later, rfl, fun other hother => by simpa using hbefore other hother,
      hname⟩

theorem matchSequence_of_length_ne (eval : Expr → Eval Value) (s : ScopeId) (limit : Nat) {r : Ref}
    (href : Native.sequenceRef? kind v = some r) (hlen : (st.heap.items r).size ≠ names.length) :
    ∃ e, matchSequence eval s kind (names.map .identifier) v ⟨limit, none⟩ st = (.error e, st) ∧
      e.category = "MatchError" := by
  have hread : items r ⟨limit, none⟩ st = (.value (st.heap.items r), st) := rfl
  unfold matchSequence
  simp only [href]
  rw [bind_of_value hread, if_pos (by simpa using hlen)]
  exact ⟨_, rfl, rfl⟩

theorem matchSequence_destructures {eval : Expr → Eval Value} (hs : s < st.scopes.size)
    (hne : names ≠ []) :
    Destructures s kind names v st
      (matchSequence eval s kind (names.map .identifier) v ⟨limit, none⟩ st) := by
  cases href : Native.sequenceRef? kind v with
  | none =>
    have hrun : matchSequence eval s kind (names.map .identifier) v ⟨limit, none⟩ st =
        (.error (.patternKind kind v.kind (st.heap.inspect v)), st) := by
      unfold matchSequence
      rw [href]
      rfl
    rw [hrun]
    refine .wrongKind (fun r hr => ?_) rfl
    rw [sequenceRef?_eq_some_iff.2 hr] at href
    cases href
  | some r =>
    have hv := sequenceRef?_eq_some_iff.1 href
    by_cases hlen : (st.heap.items r).size = names.length
    · have hlen' : names.length = (st.heap.items r).toList.length := by simpa using hlen.symm
      rw [matchSequence_of_names hne href rfl hlen']
      -- the names are declared up to the first constant, or all of them
      rcases st.scopes.exists_first_constant s names with
        hvariable | ⟨before, name, later, rfl, hvariable, hconstant⟩
      · obtain ⟨t, hrun, hbinds, -⟩ := bindNames_of_variables limit hs hlen' hvariable
        rw [bind_of_value hrun]
        exact .bound hv hlen hvariable hbinds
      · obtain ⟨t, hrun, hbinds⟩ := bindNames_of_constant limit hs hlen' hvariable
          hconstant
        rw [bind_of_error hrun]
        exact .constant hv hlen rfl hvariable hconstant hbinds
    · obtain ⟨e, hrun, he⟩ := matchSequence_of_length_ne eval s limit href hlen
      rw [hrun]
      exact .wrongLength hv hlen he

/-- **What comes of destructuring.**  A match against a pattern of names, whose right-hand side has
a value, fails before anything is bound if this is no sequence of the right kind and length.
Otherwise the names are bound in the scope at hand to the elements at their places, the last place
of a name counting, up to the first that means a constant.  If there is none, the value of the match
is the sequence itself; if there is one, the match fails with the names in front of it bound.
Nothing else changes. -/
theorem destructuring_outcome (n limit : Nat) (s : ScopeId) (kind : SequenceKind)
    (names : List String) (e : Expr) (v : Value) (st found : State) (hs : s < st.scopes.size)
    (hne : names ≠ []) (he : evalExpr n s e ⟨limit, none⟩ st = (.value v, found)) :
    Destructures s kind names v found
      (evalExpr (n + 1) s (.bind (namePattern kind names) e) ⟨limit, none⟩ st) := by
  -- the scope is still there when the right-hand side has been evaluated
  have hgrows : st.scopes.GrowsIn (· = s) (evalExpr n s e ⟨limit, none⟩ st).2.scopes :=
    namesRealm.growsIn ((Logic.evaluates (namesRealm st.scopes (· = s)).logic n).expr (w := ())
      (.inl rfl)) _
  rw [he] at hgrows
  rw [evalExpr_namePattern, bind_of_value he]
  exact matchSequence_destructures (Nat.lt_of_lt_of_le hs hgrows.size) hne

/-- In `{a, b, a} = {:one, :two, :three}` the last place of `a` counts. -/
theorem destructuring_outcome_repeated :
    let e : Expr := .tuple [.atom "one", .atom "two", .atom "three"]
    ∃ found t, evalExpr 2 globalScope e ⟨8, none⟩ .initial = (.value (.tuple 0), found) ∧
      evalExpr 3 globalScope (.bind (namePattern .tuple ["a", "b", "a"]) e) ⟨8, none⟩ .initial =
        (.value (.tuple 0), { found with scopes := t }) ∧
      (t.scope globalScope).find? "a" = some ⟨.atom "three", false⟩ ∧
      (t.scope globalScope).find? "b" = some ⟨.atom "two", false⟩ := by
  intro e
  have he : evalExpr 2 globalScope e ⟨8, none⟩ .initial =
      (.value (.tuple 0), (evalExpr 2 globalScope e ⟨8, none⟩ .initial).2) := rfl
  have hmatch := destructuring_outcome 2 8 globalScope .tuple ["a", "b", "a"] e _ _ _
    (by decide +kernel) (by simp) he
  have hvariable : ∀ name ∈ ["a", "b", "a"],
      (evalExpr 2 globalScope e ⟨8, none⟩ .initial).2.scopes.isConstant globalScope name = false :=
    by decide +kernel
  generalize hrun : evalExpr 3 globalScope (.bind (namePattern .tuple ["a", "b", "a"]) e) ⟨8, none⟩
    .initial = run at hmatch ⊢
  -- the value is a tuple of three, and no name is constant, so one outcome is left
  cases hmatch with
  | wrongKind hkind _ => exact absurd rfl (hkind 0)
  | wrongLength hv hlen _ =>
    cases hv
    exact absurd rfl hlen
  | constant _ _ hnames _ hconstant _ =>
    rw [hvariable _ (hnames ▸ by simp)] at hconstant
    cases hconstant
  | @bound r t hv _ _ hbinds =>
    cases hv
    exact ⟨_, t, rfl, rfl, hbinds.bound 2 "a" _ rfl rfl (by decide),
      hbinds.bound 1 "b" _ rfl rfl (by decide)⟩

/-- **Destructuring is not all or nothing**: in `{a, null} = {:one, :two}` the second name is
refused, and the first one, which was bound nowhere, has its value. -/
theorem destructuring_keeps_names_in_front :
    let e : Expr := .tuple [.atom "one", .atom "two"]
    let found := evalExpr 2 globalScope e ⟨8, none⟩ .initial
    let run := evalExpr 3 globalScope (.bind (namePattern .tuple ["a", "null"]) e) ⟨8, none⟩
      .initial
    found.1 = .value (.tuple 0) ∧ run.1 = .error (.constant "null") ∧
      (found.2.scopes.scope globalScope).find? "a" = none ∧
      (run.2.scopes.scope globalScope).find? "a" = some ⟨.atom "one", false⟩ :=
  ⟨rfl, rfl, rfl, rfl⟩

end AtomScript
