import AtomScript.Proofs.Scope.Resolution
import Mathlib.Data.List.Sort
import Mathlib.Data.String.Basic

/-!
# Listing what a scope sees

The names that mean something in a scope are listed with their values, in order, and so are the
variables that the scope itself owns.

A listing is gathered from the scope outwards.  Each table on the way is gone through in an order of
its own; a binding is taken up unless its name has been seen.  What has been gathered at any moment
covers what has been passed, in the way in which a name is resolved there (`Gathered.Covers`): one
binding more is the step (`Gathered.Covers.add`), a table is a run of such steps, and the way
outwards is a run over tables (`Gathered.Covers.foldl` both times).

A list that is in order is determined by its members (`Tabulates.unique`), so after the sort nothing
is left of the orders in which the tables were gone through.
-/

namespace AtomScript

/-- The list holds the pairs of names and values that satisfy `P`, in the order of the names, each
name once. -/
structure Tabulates (P : String → Value → Prop) (bs : List (String × Value)) : Prop where
  increasing : bs.Pairwise fun a b => a.1 < b.1
  mem : ∀ name v, (name, v) ∈ bs ↔ P name v

variable {P : String → Value → Prop} {bs cs : List (String × Value)}

/-- **There is one such list.** -/
theorem Tabulates.unique (hbs : Tabulates P bs) (hcs : Tabulates P cs) : bs = cs := by
  have : Std.Antisymm fun a b : String × Value => a.1 < b.1 :=
    ⟨fun _ _ hab hba => absurd hba (lt_asymm hab)⟩
  have : Std.Irrefl fun a b : String × Value => a.1 < b.1 := ⟨fun _ => lt_irrefl _⟩
  refine hbs.increasing.eq_of_mem_iff hcs.increasing fun ⟨name, v⟩ => ?_
  rw [hbs.mem, hcs.mem]

/-- The bindings of a table, read off in order. -/
theorem pairwise_fst_lt_toList (m : Std.TreeMap String Binding compare) :
    m.toList.Pairwise fun a b => a.1 < b.1 :=
  m.ordered_keys_toList.imp fun h => compare_lt_iff_lt.1 h

/-- **Sorting tabulates.**  It is enough that the list has the right members and no name twice. -/
theorem Tabulates.sortByName (hdistinct : bs.Pairwise fun a b => a.1 ≠ b.1)
    (hmem : ∀ name v, (name, v) ∈ bs ↔ P name v) : Tabulates P (ScopeTree.sortByName bs) where
  increasing := by
    -- a stable sort by names, in which no two names are the same
    let le (a b : String × Value) : Bool := (compare a.1 b.1).isLE
    have hle : ∀ a b, le a b = true ↔ a.1 ≤ b.1 := fun _ _ =>
      Ordering.isLE_iff_ne_gt.trans compare_le_iff_le
    have htrans : ∀ a b c, le a b = true → le b c = true → le a c = true := by
      simp only [hle]
      exact fun _ _ _ => le_trans
    have htotal : ∀ a b, (le a b || le b a) = true := by
      simp only [Bool.or_eq_true, hle]
      exact fun a b => le_total a.1 b.1
    have hsorted : (ScopeTree.sortByName bs).Pairwise fun a b => le a b = true :=
      List.pairwise_mergeSort htrans htotal bs
    have hne : (ScopeTree.sortByName bs).Pairwise fun a b => a.1 ≠ b.1 :=
      (List.mergeSort_perm bs le).symm.pairwise hdistinct Ne.symm
    exact hsorted.imp₂ (fun a b hab hne => lt_of_le_of_ne ((hle a b).1 hab) hne) hne
  mem name v := by
    unfold ScopeTree.sortByName
    rw [List.mem_mergeSort, hmem]

namespace ScopeTree

/-! ### Gathering -/

namespace Gathered

variable {g : Gathered} {find : String → Option Value}

/-- The names that have been seen are those that `find` finds, and each of them has been taken up
once, with the value that it finds. -/
structure Covers (g : Gathered) (find : String → Option Value) : Prop where
  seen : ∀ name, name ∈ g.seen ↔ (find name).isSome = true
  mem : ∀ name v, (name, v) ∈ g.bindings ↔ find name = some v
  distinct : g.bindings.Pairwise fun a b => a.1 ≠ b.1

theorem covers_empty : empty.Covers fun _ => none where
  seen name := by simp [empty]
  mem name v := by simp [empty]
  distinct := .nil

/-- The step lemma: what was found before is still found, and the binding gives its name a value
otherwise. -/
theorem Covers.add (hg : g.Covers find) (b : String × Binding) :
    (g.add b).Covers fun name =>
      (find name).or (if b.1 = name then some b.2.value else none) := by
  by_cases hseen : b.1 ∈ g.seen
  · -- the name has been found before, so nothing else is found now
    obtain ⟨v, hv⟩ := Option.isSome_iff_exists.1 ((hg.seen b.1).1 hseen)
    have hfind : (fun name => (find name).or (if b.1 = name then some b.2.value else none)) =
        find := by
      funext name
      by_cases hname : b.1 = name
      · rw [← hname, hv, Option.some_or]
      · rw [if_neg hname, Option.or_none]
    rwa [Gathered.add, if_pos hseen, hfind]
  -- a new name is seen from now on, and its binding is put behind the others
  · have hnone : find b.1 = none := Option.not_isSome_iff_eq_none.1 (mt (hg.seen b.1).2 hseen)
    rw [Gathered.add, if_neg hseen]
    refine ⟨fun name => ?_, fun name v => ?_, ?_⟩
    · rw [Std.TreeSet.mem_insert, compare_eq_iff_eq, hg.seen]
      by_cases hname : b.1 = name <;> cases find name <;> simp [hname]
    · rw [List.mem_append, List.mem_singleton, hg.mem, Prod.mk.injEq]
      by_cases hname : b.1 = name
      · rw [← hname, hnone]
        simp [eq_comm]
      · simp [hname, Ne.symm hname]
    · refine List.pairwise_append.2 ⟨hg.distinct, List.pairwise_singleton _ _, ?_⟩
      rintro ⟨name, v⟩ hmem c hc rfl
      rw [List.mem_singleton.1 hc, hg.mem, hnone] at hmem
      cases hmem

/-- The run lemma: what is gone through first is found first. -/
theorem Covers.foldl {α : Type} {step : Gathered → α → Gathered} {own : α → String → Option Value}
    {l : List α} (hg : g.Covers find)
    (hstep : ∀ g find a, a ∈ l → g.Covers find →
      (step g a).Covers fun name => (find name).or (own a name)) :
    (l.foldl step g).Covers fun name => (find name).or (l.findSome? (own · name)) := by
  induction l generalizing g find with
  | nil => simpa using hg
  | cons a l ih =>
    have hrest := ih (hstep g find a List.mem_cons_self hg) fun g find b hb =>
      hstep g find b (List.mem_cons_of_mem a hb)
    -- what is found in the list is found in its first element or in the rest
    have hfind : (fun name => (find name).or ((a :: l).findSome? (own · name))) =
        fun name => ((find name).or (own a name)).or (l.findSome? (own · name)) := by
      funext name
      rw [List.findSome?_cons, Option.or_assoc]
      cases own a name <;> rfl
    rwa [hfind]

end Gathered

variable {t : ScopeTree} {s : ScopeId} {name : String} {v : Value}

/-- In whatever order a table is gone through, a name is found in it with its own binding. -/
theorem TableOrder.findSome?_bindings (order : t.TableOrder) (o : ScopeId) (name : String) :
    ((order.bindings o).findSome? fun b => if b.1 = name then some b.2.value else none) =
      ((t.scope o).find? name).map (·.value) := by
  have hmem : ∀ b, (name, b) ∈ order.bindings o ↔ (t.scope o).find? name = some b := fun b => by
    rw [(order.perm o).mem_iff]
    exact Std.TreeMap.mem_toList_iff_getElem?_eq_some
  cases hfound : (t.scope o).find? name with
  | none =>
    refine List.findSome?_eq_none_iff.2 fun b hb => if_neg fun hname => ?_
    have hb' : (name, b.2) ∈ order.bindings o := hname ▸ hb
    rw [(hmem b.2).1 hb'] at hfound
    cases hfound
  | some b =>
    cases hfirst : (order.bindings o).findSome? fun b =>
        if b.1 = name then some b.2.value else none with
    | none =>
      have := List.findSome?_eq_none_iff.1 hfirst _ ((hmem b).2 hfound)
      simp at this
    | some v =>
      -- what is met first is the one binding that the table has for the name
      obtain ⟨c, hc, hv⟩ := List.exists_of_findSome?_eq_some hfirst
      by_cases hname : c.1 = name
      · have hc' : (name, c.2) ∈ order.bindings o := hname ▸ hc
        rw [if_pos hname] at hv
        rw [(hmem c.2).1 hc'] at hfound
        cases hfound
        exact hv.symm
      · rw [if_neg hname] at hv
        cases hv

/-- **Gathering and resolution agree.**  One goes from the scope outwards with a list of what it has
met, the other one asks each scope on the way for one name. -/
theorem covers_collect (t : ScopeTree) (order : t.TableOrder) (s : ScopeId) :
    (t.collect order s .empty).Covers fun name => (t.resolve? s name).map (·.value) := by
  -- over a table first, and then over the tables on the way outwards
  have htable (g : Gathered) (find : String → Option Value) (o : ScopeId) (hg : g.Covers find) :
      ((order.bindings o).foldl .add g).Covers fun name =>
        (find name).or (((t.scope o).find? name).map (·.value)) := by
    have hrun := hg.foldl (l := order.bindings o) fun _ _ b _ hg => hg.add b
    simpa only [order.findSome?_bindings] using hrun
  have hrun := Gathered.covers_empty.foldl (l := t.chain s) fun g find o _ hg => htable g find o hg
  unfold collect resolve?
  simpa only [Option.none_or, List.map_findSome?, Function.comp_def] using hrun

theorem contains_eq_isSome (t : ScopeTree) (s : ScopeId) (name : String) :
    t.contains s name = (t.resolve? s name).isSome := by
  unfold contains resolve?
  induction t.chain s with
  | nil => rfl
  | cons o chain ih =>
    rw [List.any_cons, List.findSome?_cons, ih, Scope.owns_eq]
    cases (t.scope o).find? name <;> rfl

theorem contains_iff_lookup : t.contains s name = true ↔ ∃ v, t.lookup s name = .ok v := by
  rw [contains_eq_isSome, Option.isSome_iff_exists]
  simp only [lookup_eq_ok_iff, exists_comm (α := Value), exists_and_left, exists_eq', and_true]

/-- All names that mean something are listed with what they mean. -/
theorem tabulates_allBindings (t : ScopeTree) (order : t.TableOrder) (s : ScopeId) :
    Tabulates (fun name v => t.lookup s name = .ok v) (t.allBindings s order) := by
  have hcovers := t.covers_collect order s
  refine .sortByName hcovers.distinct fun name v => ?_
  rw [hcovers.mem, lookup_eq_ok_iff, Option.map_eq_some_iff]

/-- The variables of a scope are listed with their values. -/
theorem tabulates_localBindings (t : ScopeTree) (order : t.TableOrder) (s : ScopeId) :
    Tabulates (fun name v => (t.scope s).find? name = some ⟨v, false⟩)
      (t.localBindings s order) := by
  -- any order of the table has each name once
  have hdistinct : (order.bindings s).Pairwise fun a b => a.1 ≠ b.1 :=
    (order.perm s).symm.pairwise ((pairwise_fst_lt_toList _).imp ne_of_lt) Ne.symm
  refine .sortByName (List.pairwise_map.2 (hdistinct.filter _)) fun name v => ?_
  unfold Scope.find?
  rw [List.mem_map, ← Std.TreeMap.mem_toList_iff_getElem?_eq_some, ← (order.perm s).mem_iff]
  constructor
  · rintro ⟨⟨other, w, constant⟩, hmem, heq⟩
    cases heq
    obtain ⟨hmem, hvariable⟩ := List.mem_filter.1 hmem
    cases constant with
    | false => exact hmem
    | true => cases hvariable
  · exact fun hmem => ⟨(name, ⟨v, false⟩), List.mem_filter.2 ⟨hmem, rfl⟩, rfl⟩

/-- In a tree that is linked, a name has the value that its nearest owner gives it. -/
theorem Linked.lookup_iff_nearest (ht : t.Linked) (hs : s < t.size) :
    t.lookup s name = .ok v ↔
      ∃ o constant, t.Nearest name s o ∧ (t.scope o).find? name = some ⟨v, constant⟩ := by
  simp only [lookup_eq_ok_iff, ht.resolve?_eq_some_iff hs]
  constructor
  · rintro ⟨⟨w, constant⟩, ⟨o, ho, hfind⟩, rfl⟩
    exact ⟨o, constant, ho, hfind⟩
  · rintro ⟨o, constant, ho, hfind⟩
    exact ⟨⟨v, constant⟩, ⟨o, ho, hfind⟩, rfl⟩

/-- **Listings agree with resolution.**  In whatever order the tables are gone through: the list of
all bindings has every name that means something in the scope, once and in order, with its value,
and there is no other such list, so that it does not depend on these orders; the list of names goes
with it.  The list of the scope's own bindings has its variables.  In a tree of scopes each of which
was made inside an earlier one, the value is the one in the nearest owner. -/
theorem listings_agree (t : ScopeTree) (order : t.TableOrder) (s : ScopeId) :
    Tabulates (fun name v => t.lookup s name = .ok v) (t.allBindings s order) ∧
    (∀ bs, Tabulates (fun name v => t.lookup s name = .ok v) bs → bs = t.allBindings s order) ∧
    (∀ name, t.contains s name = true ↔ ∃ v, t.lookup s name = .ok v) ∧
    (∀ name, t.contains s name = false ↔ t.lookup s name = .error (.undefined name)) ∧
    t.names s order = (t.allBindings s order).map (·.1) ∧
    Tabulates (fun name v => (t.scope s).find? name = some ⟨v, false⟩) (t.localBindings s order) ∧
    (t.Linked → s < t.size → ∀ name v, t.lookup s name = .ok v ↔
      ∃ o constant, t.Nearest name s o ∧ (t.scope o).find? name = some ⟨v, constant⟩) := by
  have hall := t.tabulates_allBindings order s
  refine ⟨hall, fun bs hbs => hbs.unique hall, fun name => contains_iff_lookup, fun name => ?_, rfl,
    t.tabulates_localBindings order s, fun ht hs name v => ht.lookup_iff_nearest hs⟩
  rw [contains_eq_isSome]
  unfold lookup
  cases t.resolve? s name <;> simp

/-- The same bindings are listed in whatever order the tables are gone through. -/
theorem allBindings_eq (t : ScopeTree) (order : t.TableOrder) (s : ScopeId) :
    t.allBindings s order = t.allBindings s :=
  (t.tabulates_allBindings order s).unique (t.tabulates_allBindings _ s)

theorem localBindings_eq (t : ScopeTree) (order : t.TableOrder) (s : ScopeId) :
    t.localBindings s order = t.localBindings s :=
  (t.tabulates_localBindings order s).unique (t.tabulates_localBindings _ s)

/-- Three scopes, one inside the other, of which two bind `x` and one a constant. -/
def nestedScopes : ScopeTree :=
  (((((empty.addRoot.bind 0 "x" ⟨.atom "outer", false⟩).bind 0 "k" ⟨.null, true⟩).addChild 0).bind 1
    "x" ⟨.atom "inner", false⟩).addChild 1)

/-- From the innermost scope the nearer `x` is listed and the farther one is not; the constant is
listed there, but not as a variable of its scope. -/
theorem listings_agree_nested :
    nestedScopes.Linked ∧ 2 < nestedScopes.size ∧
    ("x", .atom "inner") ∈ nestedScopes.allBindings 2 ∧
    ("x", .atom "outer") ∉ nestedScopes.allBindings 2 ∧
    ("k", .null) ∈ nestedScopes.allBindings 2 ∧ ("k", .null) ∉ nestedScopes.localBindings 0 := by
  have hlinked : nestedScopes.Linked :=
    (((linked_addRoot_empty.bind 0 "x" _).bind 0 "k" _).addChild (by decide)).bind 1 "x" _
      |>.addChild (by decide)
  have hsize : 2 < nestedScopes.size := by decide +kernel
  have hnearest : nestedScopes.Nearest "x" 2 1 :=
    .around (by decide +kernel) (by decide +kernel) (.here (by decide +kernel))
  -- the inner scope hides the outer name, and constants are listed but not as local variables
  obtain ⟨hall, -, -, -, -, -, hinnermost⟩ := listings_agree nestedScopes (.byName _) 2
  obtain ⟨-, -, -, -, -, hlocal, -⟩ := listings_agree nestedScopes (.byName _) 0
  have hx : nestedScopes.lookup 2 "x" = .ok (.atom "inner") :=
    (hinnermost hlinked hsize _ _).2 ⟨1, false, hnearest, rfl⟩
  have hk : (nestedScopes.scope 0).find? "k" = some ⟨.null, true⟩ := rfl
  refine ⟨hlinked, hsize, (hall.mem _ _).2 hx, ?_, (hall.mem _ _).2 rfl, ?_⟩
  · rw [hall.mem, hx]
    simp
  · rw [hlocal.mem, hk]
    simp

end ScopeTree

end AtomScript
