import AtomScript.Proofs.Heap.Cells
import Mathlib.Data.List.Find
import Mathlib.Data.List.Forall2
import Mathlib.Data.List.Perm.Subperm
import Mathlib.Logic.Relation

/-!
# Equality of values

Equality is decided by a walk into both values that carries the pairs of cells it has opened.  Where
a walk into one of the two comes to an end (`Heap.Sound`), it never comes back to an open pair, so
what is carried does not matter (`Heap.equalFrom_of_settles`) and equality follows the contents:
aggregates are equal when they are of one kind and their contents are (`Heap.equal_iff_of_refs`).

Maps make this delicate.  A key of the first is looked up in the second, among the entries filed
under its fingerprint, and the first entry that answers decides.  `Heap.Filed` is what makes the
lookup mean something: entries are filed under the fingerprints that their keys now have, and no two
keys of a map are equal.  Then a map that finds all its entries in another of the same size is found
in it entirely (`exists_of_matched`), which makes equality symmetric.

* `Heap.fingerprint_eq_of_equal` — equal values are filed alike;
* `Heap.equal_symm`, `Heap.equal_trans` — equality of sound values is an equivalence.
-/

namespace AtomScript

/-! ### Relations and lists -/

/-- From where every way ends, none leads back. -/
theorem not_transGen_of_acc {α : Type} {R : α → α → Prop} {a : α} (ha : Acc R a) :
    ¬ Relation.TransGen R a a := by
  have hacc : Acc (Relation.TransGen R) a := ha.transGen
  clear ha
  -- a shortest way round would lead to a shorter one
  induction hacc with
  | intro a _ ih => exact fun hself => ih a hself hself


section Lists

variable {α β : Type} {R : α → β → Prop} {l : List α} {m : List β}

/-- Every element on the left is related to one on the right. -/
theorem exists_of_forall₂ (hR : List.Forall₂ R l m) {a : α} (ha : a ∈ l) : ∃ b ∈ m, R a b := by
  induction hR with
  | nil => cases ha
  | @cons a' b _ _ hab _ ih =>
    rcases List.mem_cons.1 ha with rfl | ha
    · exact ⟨b, List.mem_cons_self, hab⟩
    · obtain ⟨b', hb', hab'⟩ := ih ha
      exact ⟨b', List.mem_cons_of_mem b hb', hab'⟩

/-- If each member of a list has a partner in another list, and no two members share one, there are
partners that make up a part of the other list. -/
theorem exists_partners (hpartner : ∀ a ∈ l, ∃ b ∈ m, R a b)
    (halone : l.Pairwise fun a a' => ∀ b ∈ m, R a b → ¬ R a' b) :
    ∃ bs, List.Forall₂ R l bs ∧ bs.Subperm m := by
  induction l generalizing m with
  | nil => exact ⟨[], .nil, List.nil_subperm⟩
  | cons a l ih =>
    obtain ⟨ha, hl⟩ := List.pairwise_cons.1 halone
    obtain ⟨b₀, hb₀, hab₀⟩ := hpartner a List.mem_cons_self
    -- the others have their partners in what is left of `m` without `b₀`
    obtain ⟨m₁, m₂, rfl⟩ := List.append_of_mem hb₀
    have hperm : (m₁ ++ b₀ :: m₂).Perm (b₀ :: (m₁ ++ m₂)) := List.perm_middle
    have hrest : ∀ a' ∈ l, ∃ b ∈ m₁ ++ m₂, R a' b := by
      intro a' ha'
      obtain ⟨b, hb, hab⟩ := hpartner a' (List.mem_cons_of_mem a ha')
      rcases List.mem_cons.1 (hperm.mem_iff.1 hb) with rfl | hb
      · exact absurd hab (ha a' ha' b hb₀ hab₀)
      · exact ⟨b, hb, hab⟩
    obtain ⟨bs, hbs, hsub⟩ := ih hrest (hl.imp fun h b hb =>
      h b (hperm.mem_iff.2 (List.mem_cons_of_mem b₀ hb)))
    exact ⟨b₀ :: bs, .cons hab₀ hbs, ((List.subperm_cons b₀).2 hsub).trans hperm.symm.subperm⟩

/-- If the other list is as long, each of its members is a partner. -/
theorem exists_of_matched (hlen : l.length = m.length) (hpartner : ∀ a ∈ l, ∃ b ∈ m, R a b)
    (halone : l.Pairwise fun a a' => ∀ b ∈ m, R a b → ¬ R a' b) :
    ∀ b ∈ m, ∃ a ∈ l, R a b := by
  intro b hb
  obtain ⟨bs, hbs, hsub⟩ := exists_partners hpartner halone
  have hperm : bs.Perm m := hsub.perm_of_length_le (by rw [← hlen, hbs.length_eq])
  exact exists_of_forall₂ hbs.flip (hperm.mem_iff.2 hb)

end Lists

namespace Heap

variable {h g : Heap} {n : Nat} {v w : Value} {r s : Ref} {path : List (Ref × Ref)}

/-! ### Fingerprints -/

/-- Of two values that are not both aggregates, equality is equality of fingerprints. -/
theorem equalPlain_iff (hplain : v.ref? = none ∨ w.ref? = none) :
    equalPlain v w = true ↔ h.fingerprint v = h.fingerprint w := by
  -- the kinds are told apart by both, and within a kind both compare what the values are
  cases v <;> cases w <;> simp_all [equalPlain, fingerprint, Value.ref?]

/-- Of two values with one fingerprint, both have a cell or neither has. -/
theorem ref?_isSome_of_fingerprint (heq : h.fingerprint v = h.fingerprint w) :
    v.ref?.isSome = w.ref?.isSome := by
  cases v <;> cases w <;> simp_all [fingerprint, Value.ref?]

/-- What has the fingerprint of a value with a cell has a cell. -/
theorem exists_ref_of_fingerprint (heq : h.fingerprint v = h.fingerprint w)
    (hr : v.ref? = some r) : ∃ s, w.ref? = some s := by
  have hsome := ref?_isSome_of_fingerprint heq
  rw [hr] at hsome
  exact Option.isSome_iff_exists.1 hsome.symm

/-- Values of one kind that refer to the same cell are the same. -/
theorem eq_of_ref? (hv : v.ref? = some r) (hw : w.ref? = some r) (hkind : v.kind = w.kind) :
    v = w := by
  cases v <;> cases w <;> simp_all [Value.ref?, Value.kind]

/-- Aggregates of one kind and one size have one fingerprint. -/
theorem fingerprint_of_refs (hv : v.ref? = some r) (hw : w.ref? = some s)
    (hkind : v.kind = w.kind) (hitems : (h.items r).size = (h.items s).size)
    (htable : (h.table r).size = (h.table s).size) : h.fingerprint v = h.fingerprint w := by
  cases v <;> cases w <;> simp_all [Value.ref?, Value.kind, fingerprint]

/-! ### Contents -/

variable (h) in
/-- What a cell holds: elements, keys and values. -/
def contents (r : Ref) : List Value :=
  (h.items r).toList ++ (h.table r).entries.flatMap fun e => [e.key, e.value]

/-- An element is among the contents. -/
theorem mem_contents_items (hv : v ∈ (h.items r).toList) : v ∈ h.contents r :=
  List.mem_append_left _ hv

/-- A key is among the contents. -/
theorem mem_contents_key {e : Entry} (he : e ∈ (h.table r).entries) : e.key ∈ h.contents r :=
  List.mem_append_right _ (List.mem_flatMap.2 ⟨e, he, List.mem_cons_self⟩)

/-- A value of a map is among the contents. -/
theorem mem_contents_value {e : Entry} (he : e ∈ (h.table r).entries) : e.value ∈ h.contents r :=
  List.mem_append_right _ (List.mem_flatMap.2 ⟨e, he, List.mem_cons_of_mem _ List.mem_cons_self⟩)

/-- The same cell has the same contents. -/
theorem contents_congr (hc : h.cells[r]? = g.cells[r]?) : h.contents r = g.contents r := by
  unfold contents items table
  rw [hc]

/-- Lists equal in pairs are equally long. -/
theorem length_eq_of_allPairs {α : Type} {same : α → α → Bool} {as bs : List α}
    (hp : allPairs same as bs = true) : as.length = bs.length := by
  induction as generalizing bs with
  | nil =>
    cases bs with
    | nil => rfl
    | cons b bs => cases hp
  | cons a as ih =>
    cases bs with
    | nil => cases hp
    | cons b bs =>
      rw [allPairs, Bool.and_eq_true] at hp
      rw [List.length_cons, List.length_cons, ih hp.2]

/-- Comparing in pairs asks only about the elements. -/
theorem allPairs_congr {α : Type} {f f' : α → α → Bool} {as bs : List α}
    (hf : ∀ a ∈ as, ∀ b ∈ bs, f a b = f' a b) : allPairs f as bs = allPairs f' as bs := by
  induction as generalizing bs with
  | nil => cases bs <;> rfl
  | cons a as ih =>
    cases bs with
    | nil => rfl
    | cons b bs =>
      have hrest : ∀ a' ∈ as, ∀ b' ∈ bs, f a' b' = f' a' b' := fun a' ha' b' hb' =>
        hf a' (List.mem_cons_of_mem a ha') b' (List.mem_cons_of_mem b hb')
      rw [allPairs, allPairs, hf a List.mem_cons_self b List.mem_cons_self, ih hrest]

/-- Whether the contents of two cells agree depends on how their members compare, and on the
fingerprints of the keys. -/
theorem sameContents_congr {f f' : Value → Value → Bool} (hr : h.cells[r]? = g.cells[r]?)
    (hs : h.cells[s]? = g.cells[s]?) (hf : ∀ a ∈ h.contents r, ∀ b ∈ h.contents s, f a b = f' a b)
    (hprint : ∀ a ∈ h.contents r, h.fingerprint a = g.fingerprint a) :
    h.sameContents f r s = g.sameContents f' r s := by
  have hitems : ∀ r, h.cells[r]? = g.cells[r]? → g.items r = h.items r := fun r hr => by
    unfold items
    rw [hr]
  have htable : ∀ r, h.cells[r]? = g.cells[r]? → g.table r = h.table r := fun r hr => by
    unfold table
    rw [hr]
  unfold sameContents sameTables
  rw [hitems r hr, hitems s hs, htable r hr, htable s hs]
  -- sequences are compared pair by pair, tables entry by entry
  congr 1
  · exact allPairs_congr fun a ha b hb => hf a (mem_contents_items ha) b (mem_contents_items hb)
  · congr 1
    rw [Bool.eq_iff_iff, List.all_eq_true, List.all_eq_true]
    refine forall₂_congr fun e he => ?_
    -- a look-up finds the same entry, for it tests the same fingerprints and compares alike
    have hfind : (h.table s).entries.find?
          (fun a => a.filed == h.fingerprint e.key && f e.key a.key) =
        (h.table s).entries.find?
          (fun a => a.filed == g.fingerprint e.key && f' e.key a.key) := by
      refine List.find?_congr fun a ha => ?_
      rw [hprint e.key (mem_contents_key he),
        hf e.key (mem_contents_key he) a.key (mem_contents_key ha)]
    rw [hfind]
    split
    · next a ha =>
      have ha := List.mem_of_find?_eq_some ha
      rw [hf e.value (mem_contents_value he) a.value (mem_contents_value ha)]
    · rfl

/-! ### Sound values -/

/-- The entries of the table are filed under the fingerprints that their keys now have, and no key
is equal to an earlier one. -/
structure Filed (h : Heap) (t : Table) : Prop where
  filed : ∀ e ∈ t.entries, e.filed = h.fingerprint e.key
  distinct : t.entries.Pairwise fun e f => h.equal f.key e.key = false

/-- Entries with keys that are equal both ways are the same. -/
theorem Filed.eq_of_equal {t : Table} (ht : h.Filed t) {e f : Entry} (he : e ∈ t.entries)
    (hf : f ∈ t.entries) (hef : h.equal e.key f.key = true) (hfe : h.equal f.key e.key = true) :
    e = f := by
  -- distinctness is a statement on pairs in order, so it is read in both directions
  have hsame : ∀ ⦃e⦄, e ∈ t.entries → ∀ ⦃f⦄, f ∈ t.entries →
      h.equal e.key f.key = true → h.equal f.key e.key = true → e = f := by
    refine List.Pairwise.forall_of_forall_of_flip (fun _ _ _ _ => rfl)
      (ht.distinct.imp fun hne _ hfe => ?_) (ht.distinct.imp fun hne hef _ => ?_)
    · rw [hne] at hfe
      cases hfe
    · rw [hne] at hef
      cases hef
  exact hsame he hf hef hfe

/-- A walk into the cell ends after fewer than `n` steps, and meets only maps that are filed. -/
def SoundCell (h : Heap) : Nat → Ref → Prop
  | 0, _ => False
  | n + 1, r => r < h.size ∧ h.Filed (h.table r) ∧
    ∀ v ∈ h.contents r, ∀ s, v.ref? = some s → SoundCell h n s

/-- A walk into the value ends, and meets only maps that are filed. -/
def Sound (h : Heap) (n : Nat) (v : Value) : Prop :=
  ∀ r, v.ref? = some r → h.SoundCell n r

/-- What is sound to some depth is sound to the next. -/
theorem SoundCell.succ (hr : h.SoundCell n r) : h.SoundCell (n + 1) r := by
  induction n generalizing r with
  | zero => cases hr
  | succ n ih =>
    obtain ⟨hsize, hfiled, hcontents⟩ := hr
    exact ⟨hsize, hfiled, fun v hv s hs => ih (hcontents v hv s hs)⟩

/-- What is sound to some depth is sound to any larger one. -/
theorem SoundCell.mono {m : Nat} (hr : h.SoundCell n r) (hle : n ≤ m) : h.SoundCell m r := by
  induction hle with
  | refl => exact hr
  | step _ ih => exact ih.succ

/-- What a sound cell holds is sound to a lesser depth. -/
theorem SoundCell.contents (hr : h.SoundCell (n + 1) r) (hv : v ∈ h.contents r) : h.Sound n v :=
  hr.2.2 v hv

/-! ### The walk and what it carries -/

/-- If one of two values has no cell, they are compared at once. -/
theorem equalFrom_of_plain (hplain : v.ref? = none ∨ w.ref? = none) :
    h.equalFrom path v w = equalPlain v w := by
  rw [equalFrom]
  rcases hplain with hv | hw
  · simp [hv]
  · cases hv : v.ref? <;> simp [hw]

/-- Two aggregates are compared by their contents, unless they are one cell or under way already. -/
theorem equalFrom_of_refs (hv : v.ref? = some r) (hw : w.ref? = some s) :
    h.equalFrom path v w =
      if v.kind ≠ w.kind then false
      else if r = s then true
      else if (r, s) ∈ path then false
      else if r < h.size ∧ s < h.size then h.sameContents (h.equalFrom ((r, s) :: path)) r s
      else h.sameContents (fun _ _ => false) r s := by
  rw [equalFrom]
  simp only [hv, hw]
  rfl

/-- Equal values are filed alike. -/
theorem fingerprint_eq_of_equalFrom (heq : h.equalFrom path v w = true) :
    h.fingerprint v = h.fingerprint w := by
  cases hv : v.ref? with
  | none =>
    rw [equalFrom_of_plain (.inl hv)] at heq
    exact (equalPlain_iff (.inl hv)).1 heq
  | some r =>
    cases hw : w.ref? with
    | none =>
      rw [equalFrom_of_plain (.inr hw)] at heq
      exact (equalPlain_iff (.inr hw)).1 heq
    | some s =>
      -- contents that agree are of the same size, and the size is all that a fingerprint tells
      have hsizes : ∀ same, h.sameContents same r s = true →
          (h.items r).size = (h.items s).size ∧ (h.table r).size = (h.table s).size := by
        intro same hsame
        rw [sameContents, sameTables, Bool.and_eq_true, Bool.and_eq_true, beq_iff_eq] at hsame
        exact ⟨by simpa using length_eq_of_allPairs hsame.1, hsame.2.1⟩
      rw [equalFrom_of_refs hv hw] at heq
      split at heq
      · cases heq
      · next hkind =>
        rw [ne_eq, not_not] at hkind
        split at heq
        · next hrs => rw [eq_of_ref? hv (hrs ▸ hw) hkind]
        · split at heq
          · cases heq
          · split at heq
            · exact fingerprint_of_refs hv hw hkind (hsizes _ heq).1 (hsizes _ heq).2
            · exact fingerprint_of_refs hv hw hkind (hsizes _ heq).1 (hsizes _ heq).2

/-- Equal values have one fingerprint. -/
theorem fingerprint_eq_of_equal (heq : h.equal v w = true) : h.fingerprint v = h.fingerprint w :=
  fingerprint_eq_of_equalFrom heq

/-- Outside the heap there are no contents. -/
theorem contents_of_size_le (hsize : h.size ≤ r) : h.contents r = [] := by
  have hnone : h.cells[r]? = none := Array.getElem?_eq_none hsize
  unfold contents
  rw [h.items_of_none hnone, h.table_of_none hnone]
  rfl

/-- The cells of the first pair are met in those of the second. -/
def Inside (h : Heap) (p q : Ref × Ref) : Prop :=
  (∃ a ∈ h.contents q.1, a.ref? = some p.1) ∧ ∃ b ∈ h.contents q.2, b.ref? = some p.2

/-- Every walk into the two cells at once comes to an end. -/
def Settles (h : Heap) (p : Ref × Ref) : Prop := Acc h.Inside p

/-- It is enough that the walk ends in one of the two. -/
theorem SoundCell.settles (hr : h.SoundCell n r) (s : Ref) : h.Settles (r, s) := by
  induction n generalizing r s with
  | zero => cases hr
  | succ n ih => exact ⟨_, fun p ⟨⟨a, ha, hp⟩, _⟩ => ih (hr.contents ha p.1 hp) p.2⟩

/-- A comparison with a sound cell on the right comes to an end. -/
theorem SoundCell.settles_right (hs : h.SoundCell n s) (r : Ref) : h.Settles (r, s) := by
  induction n generalizing r s with
  | zero => cases hs
  | succ n ih => exact ⟨_, fun p ⟨_, b, hb, hp⟩ => ih (hs.contents hb p.2 hp) p.1⟩

/-- **The walk does not come back.**  If the pair is met inside all pairs of the path, what is
carried makes no difference. -/
theorem equalFrom_of_settles {p : Ref × Ref} (hp : h.Settles p) (hv : v.ref? = some p.1)
    (hw : w.ref? = some p.2) (hpath : ∀ q ∈ path, Relation.TransGen h.Inside p q) :
    h.equalFrom path v w =
      if v.kind ≠ w.kind then false
      else if p.1 = p.2 then true
      else h.sameContents h.equal p.1 p.2 := by
  induction hp generalizing v w path with
  | intro p hacc ih =>
    have hmem : (p.1, p.2) ∉ path := fun hmem =>
      not_transGen_of_acc ⟨p, hacc⟩ (hpath p hmem)
    -- inside the cells the path is longer by their pair, in which all that comes is met
    have hmembers : ∀ a ∈ h.contents p.1, ∀ b ∈ h.contents p.2,
        h.equalFrom (p :: path) a b = h.equal a b := by
      intro a ha b hb
      unfold equal
      cases hr : a.ref? with
      | none => rw [equalFrom_of_plain (.inl hr), equalFrom_of_plain (.inl hr)]
      | some r =>
        cases hs : b.ref? with
        | none => rw [equalFrom_of_plain (.inr hs), equalFrom_of_plain (.inr hs)]
        | some s =>
          have hin : h.Inside (r, s) p := ⟨⟨a, ha, hr⟩, b, hb, hs⟩
          rw [ih (r, s) hin hr hs fun q hq => ?_, ih (r, s) hin hr hs (by simp)]
          rcases List.mem_cons.1 hq with rfl | hq
          · exact .single hin
          · exact .head hin (hpath q hq)
    rw [equalFrom_of_refs hv hw, if_neg hmem]
    congr 2
    by_cases hsize : p.1 < h.size ∧ p.2 < h.size
    · rw [if_pos hsize]
      exact sameContents_congr rfl rfl hmembers fun _ _ => rfl
    · -- one of the cells is not there, so there is nothing to compare
      rw [if_neg hsize]
      refine sameContents_congr rfl rfl (fun a ha b hb => ?_) fun _ _ => rfl
      rw [not_and_or, Nat.not_lt, Nat.not_lt] at hsize
      rcases hsize with hsize | hsize
      · rw [contents_of_size_le hsize] at ha
        cases ha
      · rw [contents_of_size_le hsize] at hb
        cases hb

/-- **Equality of aggregates follows their contents.** -/
theorem equal_iff_of_settles (hp : h.Settles (r, s)) (hr : v.ref? = some r)
    (hs : w.ref? = some s) :
    h.equal v w = true ↔ v.kind = w.kind ∧ (r = s ∨ h.sameContents h.equal r s = true) := by
  change h.equalFrom [] v w = true ↔ _
  rw [equalFrom_of_settles hp hr hs (by simp)]
  by_cases hkind : v.kind = w.kind
  · by_cases hrs : r = s
    · simp [hkind, hrs]
    · simp [hkind, hrs]
  · simp [hkind]

/-- Two aggregates of which the first is sound are equal when they are of one kind and have equal
contents. -/
theorem equal_iff_of_refs (hv : h.Sound n v) (hr : v.ref? = some r) (hs : w.ref? = some s) :
    h.equal v w = true ↔ v.kind = w.kind ∧ (r = s ∨ h.sameContents h.equal r s = true) :=
  equal_iff_of_settles ((hv r hr).settles s) hr hs

/-- If one of two values has no cell, they are equal when they have one fingerprint. -/
theorem equal_iff_of_plain (hplain : v.ref? = none ∨ w.ref? = none) :
    h.equal v w = true ↔ h.fingerprint v = h.fingerprint w := by
  unfold equal
  rw [equalFrom_of_plain hplain]
  exact equalPlain_iff hplain

/-- Every value equals itself. -/
theorem equal_refl (h : Heap) (v : Value) : h.equal v v = true := by
  cases hr : v.ref? with
  | none => exact (equal_iff_of_plain (.inl hr)).2 rfl
  | some r =>
    unfold equal
    rw [equalFrom_of_refs hr hr]
    simp

/-! ### Equality of sound values is an equivalence -/

/-- Values of depth `n` that are equal to a third are equal. -/
def Euclidean (h : Heap) (n : Nat) : Prop :=
  ∀ u v w, h.Sound n u → h.Sound n v → h.Sound n w →
    h.equal u v = true → h.equal u w = true → h.equal v w = true

/-- Equality that is Euclidean is symmetric, since it is reflexive. -/
theorem Euclidean.symm (hE : h.Euclidean n) (hv : h.Sound n v) (hw : h.Sound n w)
    (heq : h.equal v w = true) : h.equal w v = true :=
  hE v w v hv hw hv heq (h.equal_refl v)

/-- Comparison in pairs is Euclidean if the comparison of the elements is. -/
theorem allPairs_euclid {same : Value → Value → Bool} {us vs ws : List Value}
    (hE : ∀ u ∈ us, ∀ v ∈ vs, ∀ w ∈ ws, same u v = true → same u w = true → same v w = true)
    (hv : allPairs same us vs = true) (hw : allPairs same us ws = true) :
    allPairs same vs ws = true := by
  -- three lists in step
  induction us generalizing vs ws with
  | nil =>
    cases vs with
    | nil => cases ws with
      | nil => rfl
      | cons w ws => cases hw
    | cons v vs => cases hv
  | cons u us ih =>
    cases vs with
    | nil => cases hv
    | cons v vs =>
      cases ws with
      | nil => cases hw
      | cons w ws =>
        rw [allPairs, Bool.and_eq_true] at hv hw ⊢
        refine ⟨hE u List.mem_cons_self v List.mem_cons_self w List.mem_cons_self hv.1 hw.1, ?_⟩
        refine ih (fun u' hu' v' hv' w' hw' => ?_) hv.2 hw.2
        exact hE u' (List.mem_cons_of_mem u hu') v' (List.mem_cons_of_mem v hv') w'
          (List.mem_cons_of_mem w hw')

/-- Comparison in pairs is reflexive if the comparison of the elements is. -/
theorem allPairs_refl {same : Value → Value → Bool} (hsame : ∀ v, same v v = true)
    (vs : List Value) : allPairs same vs vs = true := by
  induction vs with
  | nil => rfl
  | cons v vs ih => rw [allPairs, hsame, ih, Bool.and_self]

/-- The entries have equal keys and equal values. -/
def SameEntry (h : Heap) (e f : Entry) : Prop :=
  h.equal e.key f.key = true ∧ h.equal e.value f.value = true

/-- An entry of one of two equal tables has an equal one in the other. -/
theorem exists_of_sameTables {same : Value → Value → Bool} {t u : Table} {e : Entry}
    (hsame : h.sameTables same t u = true) (he : e ∈ t.entries) :
    ∃ f ∈ u.entries, same e.key f.key = true ∧ same e.value f.value = true := by
  unfold sameTables at hsame
  rw [Bool.and_eq_true, List.all_eq_true] at hsame
  -- the partner of an entry is what the search in the other table finds
  have hfound := hsame.2 e he
  split at hfound
  · next f hf =>
    have hkey := List.find?_some hf
    rw [Bool.and_eq_true] at hkey
    exact ⟨f, List.mem_of_find?_eq_some hf, hkey.2, hfound⟩
  · cases hfound

/-- **Lookup in a filed table is search by equality.**  At most one key is equal to a given one, so
it does not matter which entry is met first. -/
theorem sameTables_iff {t u : Table} (hE : h.Euclidean n) (hu : h.Filed u)
    (ht : ∀ e ∈ t.entries, h.Sound n e.key) (hsound : ∀ e ∈ u.entries, h.Sound n e.key) :
    h.sameTables h.equal t u = true ↔
      t.size = u.size ∧ ∀ e ∈ t.entries, ∃ f ∈ u.entries, h.SameEntry e f := by
  constructor
  · intro hsame
    refine ⟨?_, fun e he => exists_of_sameTables hsame he⟩
    unfold sameTables at hsame
    rw [Bool.and_eq_true, beq_iff_eq] at hsame
    exact hsame.1
  · rintro ⟨hsize, hpartner⟩
    unfold sameTables
    rw [Bool.and_eq_true, beq_iff_eq, List.all_eq_true]
    refine ⟨hsize, fun e he => ?_⟩
    obtain ⟨f, hf, hkey, hvalue⟩ := hpartner e he
    split
    · next f' hf' =>
      have hkey' := List.find?_some hf'
      have hmem' := List.mem_of_find?_eq_some hf'
      rw [Bool.and_eq_true] at hkey'
      have hff' := hE _ _ _ (ht e he) (hsound f hf) (hsound f' hmem') hkey hkey'.2
      have hf'f := hE _ _ _ (ht e he) (hsound f' hmem') (hsound f hf) hkey'.2 hkey
      -- both entries answer to the same key, so they are one
      exact hu.eq_of_equal hf hmem' hff' hf'f ▸ hvalue
    · next hnone =>
      -- the entry is filed under the fingerprint that is looked for, so it cannot be missed
      have := List.find?_eq_none.1 hnone f hf
      rw [hu.filed f hf, fingerprint_eq_of_equal hkey, hkey] at this
      simp at this

/-- No two entries of a filed table are the same as a third, or their keys would be equal. -/
theorem Filed.alone {t : Table} {fs : List Entry} (hE : h.Euclidean n) (ht : h.Filed t)
    (hst : ∀ e ∈ t.entries, h.Sound n e.key) (hsf : ∀ f ∈ fs, h.Sound n f.key) :
    t.entries.Pairwise fun e e' => ∀ f ∈ fs, h.SameEntry e f → ¬ h.SameEntry e' f := by
  refine List.Pairwise.imp_of_mem (fun {e e'} he he' hne f hf hef he'f => ?_) ht.distinct
  have hfe := hE.symm (hst e he) (hsf f hf) hef.1
  have hfe' := hE.symm (hst e' he') (hsf f hf) he'f.1
  rw [hE _ _ _ (hsf f hf) (hst e' he') (hst e he) hfe' hfe] at hne
  cases hne

/-- Maps that are equal to a third are equal. -/
theorem sameTables_euclid {t u v : Table} (hE : h.Euclidean n) (ht : h.Filed t) (hu : h.Filed u)
    (hv : h.Filed v) (hst : ∀ e ∈ t.entries, h.Sound n e.key ∧ h.Sound n e.value)
    (hsu : ∀ e ∈ u.entries, h.Sound n e.key ∧ h.Sound n e.value)
    (hsv : ∀ e ∈ v.entries, h.Sound n e.key ∧ h.Sound n e.value)
    (htu : h.sameTables h.equal t u = true) (htv : h.sameTables h.equal t v = true) :
    h.sameTables h.equal u v = true := by
  rw [sameTables_iff hE hu (fun e he => (hst e he).1) fun e he => (hsu e he).1] at htu
  rw [sameTables_iff hE hv (fun e he => (hst e he).1) fun e he => (hsv e he).1] at htv
  rw [sameTables_iff hE hv (fun e he => (hsu e he).1) fun e he => (hsv e he).1]
  refine ⟨htu.1.symm.trans htv.1, ?_⟩
  have halone := ht.alone hE (fun e he => (hst e he).1) fun f hf => (hsu f hf).1
  -- each entry of `u` is the partner of one of `t`, which leads on to its partner in `v`
  intro f hf
  obtain ⟨e, he, hef⟩ := exists_of_matched htu.1 htu.2 halone f hf
  obtain ⟨f', hf', hef'⟩ := htv.2 e he
  exact ⟨f', hf', hE _ _ _ (hst e he).1 (hsu f hf).1 (hsv f' hf').1 hef.1 hef'.1,
    hE _ _ _ (hst e he).2 (hsu f hf).2 (hsv f' hf').2 hef.2 hef'.2⟩

/-- Equality of contents is Euclidean one level above where equality is. -/
theorem sameContents_euclid {q : Ref} (hE : h.Euclidean n) (hq : h.SoundCell (n + 1) q)
    (hr : h.SoundCell (n + 1) r) (hs : h.SoundCell (n + 1) s)
    (hqr : h.sameContents h.equal q r = true) (hqs : h.sameContents h.equal q s = true) :
    h.sameContents h.equal r s = true := by
  have hentries : ∀ r, h.SoundCell (n + 1) r →
      ∀ e ∈ (h.table r).entries, h.Sound n e.key ∧ h.Sound n e.value := fun r hr e he =>
    ⟨hr.contents (mem_contents_key he), hr.contents (mem_contents_value he)⟩
  unfold sameContents at hqr hqs ⊢
  rw [Bool.and_eq_true] at hqr hqs ⊢
  -- the positions are compared one by one, the entries by their keys
  refine ⟨allPairs_euclid (fun a ha b hb c hc => ?_) hqr.1 hqs.1, ?_⟩
  · exact hE a b c (hq.contents (mem_contents_items ha)) (hr.contents (mem_contents_items hb))
      (hs.contents (mem_contents_items hc))
  · exact sameTables_euclid hE hq.2.1 hr.2.1 hs.2.1 (hentries q hq) (hentries r hr)
      (hentries s hs) hqr.2 hqs.2

/-- A sound cell has the contents it has. -/
theorem sameContents_refl (hE : h.Euclidean n) (hr : h.SoundCell (n + 1) r) :
    h.sameContents h.equal r r = true := by
  have hkeys : ∀ e ∈ (h.table r).entries, h.Sound n e.key := fun e he =>
    hr.contents (mem_contents_key he)
  unfold sameContents
  rw [Bool.and_eq_true, sameTables_iff hE hr.2.1 hkeys hkeys]
  exact ⟨allPairs_refl h.equal_refl _, rfl, fun e he => ⟨e, he, h.equal_refl _, h.equal_refl _⟩⟩

/-- By induction on the depth, for all three values at once. -/
theorem euclidean (h : Heap) (n : Nat) : h.Euclidean n := by
  induction n with
  | zero =>
    intro u v w hu hv hw huv huw
    -- at depth zero there are no aggregates
    have hnone : v.ref? = none := by
      cases hr : v.ref? with
      | none => rfl
      | some r => cases hv r hr
    rw [equal_iff_of_plain (.inl hnone), ← fingerprint_eq_of_equal huv]
    exact fingerprint_eq_of_equal huw
  | succ n hE =>
    intro u v w hu hv hw huv huw
    have hprint : h.fingerprint v = h.fingerprint w :=
      (fingerprint_eq_of_equal huv).symm.trans (fingerprint_eq_of_equal huw)
    cases hr : v.ref? with
    | none => exact (equal_iff_of_plain (.inl hr)).2 hprint
    | some r =>
      cases hs : w.ref? with
      | none => exact (equal_iff_of_plain (.inr hs)).2 hprint
      | some s =>
        -- `u` is an aggregate because `v` is, or their fingerprints would differ
        obtain ⟨q, hq⟩ := exists_ref_of_fingerprint (fingerprint_eq_of_equal huv).symm hr
        have hqs := hu q hq
        have hrs := hv r hr
        have hss := hw s hs
        -- the same cell has the same contents, so contents decide
        have hcontents : ∀ {s}, q = s ∨ h.sameContents h.equal q s = true →
            h.sameContents h.equal q s = true := by
          rintro s (rfl | hsame)
          · exact sameContents_refl hE hqs
          · exact hsame
        rw [equal_iff_of_refs hu hq hr] at huv
        rw [equal_iff_of_refs hu hq hs] at huw
        rw [equal_iff_of_refs hv hr hs]
        exact ⟨huv.1.symm.trans huw.1, .inr (sameContents_euclid hE hqs hrs hss
          (hcontents huv.2) (hcontents huw.2))⟩

/-- Equality of sound values is symmetric. -/
theorem equal_symm (hv : h.Sound n v) (hw : h.Sound n w) (heq : h.equal v w = true) :
    h.equal w v = true :=
  (h.euclidean n).symm hv hw heq

/-- Equality of sound values is transitive. -/
theorem equal_trans {u : Value} (hu : h.Sound n u) (hv : h.Sound n v) (hw : h.Sound n w)
    (huv : h.equal u v = true) (hvw : h.equal v w = true) : h.equal u w = true :=
  h.euclidean n v u w hv hu hw (equal_symm hu hv huv) hvw

end Heap

end AtomScript
