import AtomScript.Proofs.Heap.Detached
import Mathlib.Data.List.Nodup

/-!
# Equality and unfoldings

A value that nothing goes round in unfolds into a finite tree (`Unfolding`), in which plain values
stand for what tells them apart: a number for its identity, a function for its own, a built-in
function for its name.  How cells are shared is not to be seen in it.  A map is a set of entries, so
unfoldings that differ in the order of entries are taken for the same `Structure`.

Equality of values is equality of these structures (`Heap.equal_iff_same`).  This is what the
comparison computes although it works on cells: it looks keys up by their fingerprints, takes a cell
for equal to itself without looking at it, and carries the pairs of cells that it has opened.
`Heap.Compares` is the comparison that carries nothing, with or without the short way; it comes to
an end with the same answer.

All this is about *regular* values (`Heap.Regular`).  That their maps are filed cannot be left out
(`Heap.equal_lengthened`).
-/

namespace AtomScript

/-! ### Plain values -/

/-- What tells plain values apart. -/
inductive Leaf where
  | null
  | number (identity : UInt64)
  | string (s : String)
  | boolean (b : Bool)
  | atom (name : String)
  | function (id : Nat)
  | lambda (id : Nat)
  | native (name : String)
  | library (m : Library)

/-- What tells a plain value apart; an aggregate is no plain value. -/
def Value.leaf? : Value → Option Leaf
  | .null => some .null
  | .number x => some (.number x.identity)
  | .string s => some (.string s)
  | .boolean b => some (.boolean b)
  | .atom name => some (.atom name)
  | .function f => some (.function f.id)
  | .lambda f => some (.lambda f.id)
  | .native f => some (.native f.name)
  | .library m => some (.library m)
  | .tuple _ | .list _ | .map _ => none

/-- All built-in functions, global ones and members of modules. -/
def Native.all : List Native :=
  globals ++ Library.all.flatMap fun m => m.members.map (·.2)

/-- Every built-in function is in the table of them. -/
theorem Native.mem_all (f : Native) : f ∈ Native.all := by
  cases f with
  | print | date | len | tupleSize | listPop => decide
  | test kind => cases kind <;> decide
  | sequence kind op => cases kind <;> cases op <;> decide
  | map op => cases op <;> decide
  | enum op => cases op <;> decide
  | text op => cases op <;> decide
  | number op => cases op <;> decide

/-- No two built-in functions have the same name. -/
theorem Native.name_injective : Function.Injective Native.name := by
  have hnodup : (Native.all.map Native.name).Nodup := by decide +kernel
  exact fun f g heq => List.inj_on_of_nodup_map hnodup (mem_all f) (mem_all g) heq

/-- A leaf has no cell. -/
theorem Value.ref?_eq_none_of_leaf? {v : Value} {l : Leaf} (hl : v.leaf? = some l) :
    v.ref? = none := by
  cases v <;> first | rfl | cases hl

/-- A value is a leaf exactly when it has no cell. -/
theorem Value.leaf?_eq_none_iff {v : Value} : v.leaf? = none ↔ v.ref?.isSome := by
  cases v <;> simp [leaf?, ref?]

namespace Heap

/-- If one of two values has no cell, they are equal when they are the same leaf. -/
theorem equal_iff_leaf? {h : Heap} {v w : Value} (hplain : v.ref? = none ∨ w.ref? = none) :
    h.equal v w = true ↔ v.leaf? = w.leaf? := by
  unfold equal
  rw [equalFrom_of_plain hplain]
  cases v <;> cases w <;>
    simp_all [equalPlain, Value.leaf?, Value.ref?, Native.name_injective.eq_iff]

end Heap

/-! ### Lists in step -/

section Lists

variable {α β γ δ : Type} {as : List α} {bs : List β} {cs : List γ} {ds : List δ}
  {R : α → γ → Prop} {R' : β → δ → Prop} {E : α → β → Prop} {S : γ → δ → Prop}

/-- Relations of lists, element by element, compose. -/
theorem forall₂_trans {T : α → δ → Prop} (hT : ∀ a c d, R a c → S c d → T a d)
    (hac : List.Forall₂ R as cs) (hcd : List.Forall₂ S cs ds) : List.Forall₂ T as ds := by
  induction hac generalizing ds with
  | nil =>
    cases hcd
    exact .nil
  | cons hab _ ih =>
    cases hcd with
    | cons hbc hrest => exact .cons (hT _ _ _ hab hbc) (ih hrest)

/-- Lists whose members each have something to go with. -/
theorem exists_forall₂ (has : ∀ a ∈ as, ∃ c, R a c) : ∃ cs, List.Forall₂ R as cs := by
  induction as with
  | nil => exact ⟨[], .nil⟩
  | cons a as ih =>
    obtain ⟨hfirst, hrest⟩ := List.forall_mem_cons.1 has
    obtain ⟨c, hc⟩ := hfirst
    obtain ⟨cs, hcs⟩ := ih hrest
    exact ⟨c :: cs, .cons hc hcs⟩

/-- If members of two lists are related exactly when what goes with them is, the lists are in step
exactly when the lists of what goes with them are. -/
theorem forall₂_iff_forall₂ (hac : List.Forall₂ R as cs) (hbd : List.Forall₂ R' bs ds)
    (hES : ∀ a ∈ as, ∀ b ∈ bs, ∀ c d, R a c → R' b d → (E a b ↔ S c d)) :
    List.Forall₂ E as bs ↔ List.Forall₂ S cs ds := by
  -- both pairs of lists are taken apart together; where one is longer, neither side holds
  induction hac generalizing bs ds with
  | nil =>
    cases hbd with
    | nil => exact iff_of_true .nil .nil
    | cons _ _ => exact iff_of_false nofun nofun
  | @cons a c as cs hac _ ih =>
    cases hbd with
    | nil => exact iff_of_false nofun nofun
    | @cons b d bs ds hbd hrest =>
      have hhead := hES a List.mem_cons_self b List.mem_cons_self c d hac hbd
      have htail := ih hrest fun a' ha' b' hb' =>
        hES a' (List.mem_cons_of_mem a ha') b' (List.mem_cons_of_mem b hb')
      rw [List.forall₂_cons, List.forall₂_cons, hhead, htail]

/-- Likewise for having a partner. -/
theorem partners_iff_partners (hac : List.Forall₂ R as cs) (hbd : List.Forall₂ R' bs ds)
    (hES : ∀ a ∈ as, ∀ b ∈ bs, ∀ c d, R a c → R' b d → (E a b ↔ S c d)) :
    (∀ a ∈ as, ∃ b ∈ bs, E a b) ↔ ∀ c ∈ cs, ∃ d ∈ ds, S c d := by
  -- from a partner of a related element to a partner of the element, and back
  constructor
  · intro hall c hc
    obtain ⟨a, ha, hac'⟩ := exists_of_forall₂ hac.flip hc
    obtain ⟨b, hb, hab⟩ := hall a ha
    obtain ⟨d, hd, hbd'⟩ := exists_of_forall₂ hbd hb
    exact ⟨d, hd, (hES a ha b hb c d hac' hbd').1 hab⟩
  · intro hall a ha
    obtain ⟨c, hc, hac'⟩ := exists_of_forall₂ hac ha
    obtain ⟨d, hd, hcd⟩ := hall c hc
    obtain ⟨b, hb, hbd'⟩ := exists_of_forall₂ hbd.flip hd
    exact ⟨b, hb, (hES a ha b hb c d hac' hbd').2 hcd⟩

end Lists

/-! ### Unfoldings -/

/-- A finite tree of values. -/
inductive Unfolding where
  | leaf (l : Leaf)
  | sequence (kind : SequenceKind) (items : List Unfolding)
  | map (entries : List (Unfolding × Unfolding))

namespace Unfolding

/-- The trees are the same but for the order and the repetition of entries. -/
inductive Same : Unfolding → Unfolding → Prop where
  | leaf (l : Leaf) : Same (leaf l) (leaf l)
  | sequence {kind : SequenceKind} {ss ts : List Unfolding} (R : Unfolding → Unfolding → Prop)
      (hitems : List.Forall₂ R ss ts) (hR : ∀ s t, R s t → Same s t) :
      Same (sequence kind ss) (sequence kind ts)
  | map {ps qs : List (Unfolding × Unfolding)} (R : Unfolding → Unfolding → Prop)
      (hsub : ∀ p ∈ ps, ∃ q ∈ qs, R p.1 q.1 ∧ R p.2 q.2)
      (hsup : ∀ q ∈ qs, ∃ p ∈ ps, R p.1 q.1 ∧ R p.2 q.2)
      (hR : ∀ s t, R s t → Same s t) : Same (map ps) (map qs)

/-- An unfolding is the same as itself. -/
theorem Same.refl (s : Unfolding) : Same s s := by
  -- by strong induction on the size, since the elements of an unfolding are inside lists
  induction hn : sizeOf s using Nat.strongRecOn generalizing s with
  | ind n ih =>
    cases s with
    | leaf l => exact .leaf l
    | sequence kind ss =>
      refine .sequence Same (List.forall₂_same.2 fun s hs => ?_) fun _ _ h => h
      have hlt := List.sizeOf_lt_of_mem hs
      rw [Unfolding.sequence.sizeOf_spec] at hn
      exact ih (sizeOf s) (by omega) s rfl
    | map ps =>
      have hentry : ∀ p ∈ ps, Same p.1 p.1 ∧ Same p.2 p.2 := by
        rintro ⟨s, t⟩ hp
        have hlt := List.sizeOf_lt_of_mem hp
        rw [Unfolding.map.sizeOf_spec] at hn
        rw [Prod.mk.sizeOf_spec] at hlt
        exact ⟨ih (sizeOf s) (by omega) s rfl, ih (sizeOf t) (by omega) t rfl⟩
      exact .map Same (fun p hp => ⟨p, hp, hentry p hp⟩) (fun p hp => ⟨p, hp, hentry p hp⟩)
        fun _ _ h => h

/-- Sameness of unfoldings is symmetric. -/
theorem Same.symm {s t : Unfolding} (hst : Same s t) : Same t s := by
  induction hst with
  | leaf l => exact .leaf l
  | sequence R hitems _ ih => exact .sequence (flip R) hitems.flip fun t s => ih s t
  | map R hsub hsup _ ih => exact .map (flip R) hsup hsub fun t s => ih s t

/-- Sameness of unfoldings is transitive. -/
theorem Same.trans {s t u : Unfolding} (hst : Same s t) (htu : Same t u) : Same s u := by
  induction hst generalizing u with
  | leaf l => exact htu
  | sequence R hitems _ ih =>
    cases htu with
    | sequence R' hitems' hR' =>
      exact .sequence Same (forall₂_trans (fun s t u hst htu => ih s t hst (hR' t u htu)) hitems
        hitems') fun _ _ h => h
  | map R hsub hsup _ ih =>
    -- an intermediate entry joins the partners on either side
    cases htu with
    | map R' hsub' hsup' hR' =>
      refine .map Same (fun p hp => ?_) (fun q hq => ?_) fun _ _ h => h
      · obtain ⟨q, hq, hkey, hvalue⟩ := hsub p hp
        obtain ⟨o, ho, hkey', hvalue'⟩ := hsub' q hq
        exact ⟨o, ho, ih _ _ hkey (hR' _ _ hkey'), ih _ _ hvalue (hR' _ _ hvalue')⟩
      · obtain ⟨p, hp, hkey', hvalue'⟩ := hsup' q hq
        obtain ⟨o, ho, hkey, hvalue⟩ := hsup p hp
        exact ⟨o, ho, ih _ _ hkey (hR' _ _ hkey'), ih _ _ hvalue (hR' _ _ hvalue')⟩

instance setoid : Setoid Unfolding where
  r := Same
  iseqv := ⟨Same.refl, Same.symm, Same.trans⟩

end Unfolding

/-- A finite structure: an unfolding, with a set of entries for a map. -/
abbrev Structure := Quotient Unfolding.setoid

namespace Heap

variable {h : Heap} {v w : Value} {s t : Unfolding} {n : Nat} {q r : Ref}

/-- The value unfolds into the tree. -/
inductive Unfolds (h : Heap) : Value → Unfolding → Prop where
  | leaf {v : Value} {l : Leaf} (hl : v.leaf? = some l) : Unfolds h v (.leaf l)
  | sequence {v : Value} {kind : SequenceKind} {r : Ref} {items : List Unfolding}
      (R : Value → Unfolding → Prop) (hv : v = .ofSequence kind r)
      (hitems : List.Forall₂ R (h.items r).toList items) (hR : ∀ a s, R a s → Unfolds h a s) :
      Unfolds h v (.sequence kind items)
  | map {v : Value} {r : Ref} {entries : List (Unfolding × Unfolding)}
      (R : Value → Unfolding → Prop) (hv : v = .map r)
      (hentries : List.Forall₂ (fun e p => R e.key p.1 ∧ R e.value p.2) (h.table r).entries entries)
      (hR : ∀ a s, R a s → Unfolds h a s) : Unfolds h v (.map entries)

/-- A sound value unfolds, by induction on its depth. -/
theorem Sound.exists_unfolds (hv : h.Sound n v) : ∃ s, h.Unfolds v s := by
  induction n generalizing v with
  | zero =>
    -- with no depth only leaves are sound
    cases hl : v.leaf? with
    | some l => exact ⟨_, .leaf hl⟩
    | none =>
      obtain ⟨r, hr⟩ := Option.isSome_iff_exists.1 (Value.leaf?_eq_none_iff.1 hl)
      cases hv r hr
  | succ n ih =>
    have hsequence : ∀ kind r, h.SoundCell (n + 1) r → ∃ s, h.Unfolds (.ofSequence kind r) s := by
      intro kind r hr
      have hmember : ∀ a ∈ (h.items r).toList, ∃ s, h.Unfolds a s := fun a ha =>
        ih (hr.contents (mem_contents_items ha))
      obtain ⟨items, hitems⟩ := exists_forall₂ hmember
      exact ⟨_, .sequence h.Unfolds rfl hitems fun _ _ ht => ht⟩
    cases v with
    | tuple r => exact hsequence .tuple r (hv r rfl)
    | list r => exact hsequence .list r (hv r rfl)
    | map r =>
      have hr := hv r rfl
      have hentry : ∀ e ∈ (h.table r).entries,
          ∃ p : Unfolding × Unfolding, h.Unfolds e.key p.1 ∧ h.Unfolds e.value p.2 := by
        intro e he
        obtain ⟨s, hs⟩ := ih (hr.contents (mem_contents_key he))
        obtain ⟨t, ht⟩ := ih (hr.contents (mem_contents_value he))
        exact ⟨(s, t), hs, ht⟩
      obtain ⟨entries, hentries⟩ := exists_forall₂ hentry
      exact ⟨_, .map h.Unfolds rfl hentries fun _ _ ht => ht⟩
    | _ => exact ⟨_, .leaf rfl⟩

/-- A value unfolds into one tree. -/
theorem Unfolds.unique (hs : h.Unfolds v s) (ht : h.Unfolds v t) : t = s := by
  induction hs generalizing t with
  | leaf hl =>
    cases ht with
    -- an unfolding of another form is of a value of another kind
    | leaf hl' =>
      rw [hl, Option.some.injEq] at hl'
      rw [hl']
    | @sequence _ kind _ _ _ hv =>
      subst hv
      cases kind <;> cases hl
    | map _ hv =>
      subst hv
      cases hl
  | @sequence v kind r items R hv hitems _ ih =>
    subst hv
    cases ht with
    | leaf hl => cases kind <;> cases hl
    | @sequence _ kind' r' _ R' hv' hitems' hR' =>
      obtain ⟨rfl, rfl⟩ : kind = kind' ∧ r = r' := by
        cases kind <;> cases kind' <;> cases hv' <;> exact ⟨rfl, rfl⟩
      have heq := forall₂_trans (T := Eq) (fun s a t hs ht => (ih a s hs (hR' a t ht)).symm)
        hitems.flip hitems'
      rw [List.forall₂_eq_eq_eq] at heq
      rw [heq]
    | map _ hv' => cases kind <;> cases hv'
  | @map v r entries R hv hentries _ ih =>
    subst hv
    cases ht with
    | leaf hl => cases hl
    | @sequence _ kind _ _ _ hv' => cases kind <;> cases hv'
    | map R' hv' hentries' hR' =>
      cases hv'
      have heq := forall₂_trans (T := Eq) (fun p e q hp hq => Prod.ext
        (ih _ _ hp.1 (hR' _ _ hq.1)).symm (ih _ _ hp.2 (hR' _ _ hq.2)).symm) hentries.flip hentries'
      rw [List.forall₂_eq_eq_eq] at heq
      rw [heq]

/-! ### Equality is equality of unfoldings -/

/-- **The short way makes no difference**: the contents of a sound cell agree with themselves, so
contents decide. -/
theorem equal_iff_sameContents (hv : h.Sound n v) (hq : v.ref? = some q) (hr : w.ref? = some r) :
    h.equal v w = true ↔ v.kind = w.kind ∧ h.sameContents h.equal q r = true := by
  rw [equal_iff_of_refs hv hq hr]
  refine and_congr_right fun _ => or_iff_right_of_imp ?_
  rintro rfl
  have hsound := hv q hq
  cases n with
  | zero => cases hsound
  | succ n => exact sameContents_refl (h.euclidean n) hsound

/-- Tables agree when they have the same entries: each is in the other. -/
theorem sameTables_iff_partners {t u : Table} (ht : h.Filed t) (hu : h.Filed u)
    (hst : ∀ e ∈ t.entries, h.Sound n e.key ∧ h.Sound n e.value)
    (hsu : ∀ e ∈ u.entries, h.Sound n e.key ∧ h.Sound n e.value) :
    h.sameTables h.equal t u = true ↔
      (∀ e ∈ t.entries, ∃ f ∈ u.entries, h.SameEntry e f) ∧
        ∀ f ∈ u.entries, ∃ e ∈ t.entries, h.SameEntry e f := by
  have hE := h.euclidean n
  have halone := ht.alone hE (fun e he => (hst e he).1) fun f hf => (hsu f hf).1
  rw [sameTables_iff hE hu (fun e he => (hst e he).1) fun e he => (hsu e he).1]
  constructor
  · rintro ⟨hsize, hpartner⟩
    exact ⟨hpartner, exists_of_matched hsize hpartner halone⟩
  · rintro ⟨hpartner, hpartner'⟩
    -- neither table has more entries than the other has partners for
    have hback : ∀ f ∈ u.entries, ∃ e ∈ t.entries, h.SameEntry f e := by
      intro f hf
      obtain ⟨e, he, hef⟩ := hpartner' f hf
      exact ⟨e, he, equal_symm (hst e he).1 (hsu f hf).1 hef.1,
        equal_symm (hst e he).2 (hsu f hf).2 hef.2⟩
    have halone' := hu.alone hE (fun f hf => (hsu f hf).1) fun e he => (hst e he).1
    obtain ⟨fs, hfs, hsub⟩ := exists_partners hpartner halone
    obtain ⟨es, hes, hsub'⟩ := exists_partners hback halone'
    refine ⟨Nat.le_antisymm ?_ ?_, hpartner⟩
    · exact hfs.length_eq.trans_le hsub.length_le
    · exact hes.length_eq.trans_le hsub'.length_le

/-- Two sequences have equal contents when their elements are equal in order. -/
theorem sameContents_of_sequences (hq : (h.table q).entries = []) (hr : (h.table r).entries = []) :
    h.sameContents h.equal q r = true ↔
      List.Forall₂ (fun a b => h.equal a b = true) (h.items q).toList (h.items r).toList := by
  have htables : h.sameTables h.equal (h.table q) (h.table r) = true := by
    unfold sameTables Table.size
    rw [hq, hr]
    rfl
  unfold sameContents
  rw [htables, Bool.and_true, allPairs_iff_forall₂]

/-- Two maps have equal contents when their tables are equal. -/
theorem sameContents_of_maps (hq : h.items q = #[]) (hr : h.items r = #[]) :
    h.sameContents h.equal q r = h.sameTables h.equal (h.table q) (h.table r) := by
  unfold sameContents
  rw [hq, hr]
  rfl

/-- Equal values are of one kind. -/
theorem kind_eq_of_equal (heq : h.equal v w = true) : v.kind = w.kind := by
  have hprint := fingerprint_eq_of_equal heq
  cases v <;> cases w <;> first | rfl | cases hprint

section Members

variable {R R' : Value → Unfolding → Prop}

/-- Sequences are equal exactly when their unfoldings are the same, if this holds of their
elements. -/
theorem equal_sequence_iff_same {kind : SequenceKind} {ss ts : List Unfolding}
    (hfq : h.Fits (.ofSequence kind q)) (hfr : h.Fits (.ofSequence kind r))
    (hv : h.Sound n (.ofSequence kind q)) (hq : List.Forall₂ R (h.items q).toList ss)
    (hr : List.Forall₂ R' (h.items r).toList ts)
    (hsame : ∀ a ∈ h.contents q, ∀ b ∈ h.contents r, ∀ s t, R a s → R' b t →
      (h.equal a b = true ↔ s.Same t)) :
    h.equal (.ofSequence kind q) (.ofSequence kind r) = true ↔
      (Unfolding.sequence kind ss).Same (.sequence kind ts) := by
  have href : ∀ q, (Value.ofSequence kind q).ref? = some q := fun q => by cases kind <;> rfl
  have hkind : (Value.ofSequence kind q).kind = (Value.ofSequence kind r).kind := by
    cases kind <;> rfl
  have hnone : ∀ {q}, h.Fits (.ofSequence kind q) → (h.table q).entries = [] := fun hfits =>
    hfits.entries_of_sequence (href _) (by cases kind <;> nofun)
  -- both lists of elements unfold in order, so equality carries over element by element
  rw [equal_iff_sameContents hv (href q) (href r), and_iff_right hkind,
    sameContents_of_sequences (hnone hfq) (hnone hfr),
    forall₂_iff_forall₂ hq hr fun a ha b hb =>
      hsame a (mem_contents_items ha) b (mem_contents_items hb)]
  constructor
  · exact fun hall => .sequence _ hall fun _ _ hst => hst
  · intro hst
    cases hst with
    | sequence R hall hR => exact hall.imp hR

/-- Maps are equal exactly when their unfoldings are the same, if this holds of their keys and
values. -/
theorem equal_map_iff_same {ps ps' : List (Unfolding × Unfolding)} (hfq : h.Fits (.map q))
    (hfr : h.Fits (.map r)) (hv : h.Sound (n + 1) (.map q)) (hw : h.Sound (n + 1) (.map r))
    (hq : List.Forall₂ (fun e p => R e.key p.1 ∧ R e.value p.2) (h.table q).entries ps)
    (hr : List.Forall₂ (fun e p => R' e.key p.1 ∧ R' e.value p.2) (h.table r).entries ps')
    (hsame : ∀ a ∈ h.contents q, ∀ b ∈ h.contents r, ∀ s t, R a s → R' b t →
      (h.equal a b = true ↔ s.Same t)) :
    h.equal (.map q) (.map r) = true ↔ (Unfolding.map ps).Same (.map ps') := by
  have hentry : ∀ {q}, h.SoundCell (n + 1) q → ∀ e ∈ (h.table q).entries,
      h.Sound n e.key ∧ h.Sound n e.value := fun hq e he =>
    ⟨hq.contents (mem_contents_key he), hq.contents (mem_contents_value he)⟩
  have hentries : ∀ e ∈ (h.table q).entries, ∀ f ∈ (h.table r).entries,
      ∀ p p' : Unfolding × Unfolding, R e.key p.1 ∧ R e.value p.2 →
      R' f.key p'.1 ∧ R' f.value p'.2 →
      (h.SameEntry e f ↔ p.1.Same p'.1 ∧ p.2.Same p'.2) := fun e he f hf p p' hp hp' =>
    and_congr (hsame _ (mem_contents_key he) _ (mem_contents_key hf) _ _ hp.1 hp'.1)
      (hsame _ (mem_contents_value he) _ (mem_contents_value hf) _ _ hp.2 hp'.2)
  have hsound := hv q rfl
  have hsound' := hw r rfl
  have hkind : (Value.map q).kind = (Value.map r).kind := rfl
  rw [equal_iff_sameContents hv rfl rfl, and_iff_right hkind,
    sameContents_of_maps hfq.items_of_map hfr.items_of_map,
    sameTables_iff_partners hsound.2.1 hsound'.2.1 (hentry hsound) (hentry hsound'),
    -- a table is compared in both directions, since equality of entries is not symmetric by itself
    partners_iff_partners hq hr hentries,
    partners_iff_partners (E := fun f e => h.SameEntry e f)
      (S := fun p' p => p.1.Same p'.1 ∧ p.2.Same p'.2) hr hq
      fun f hf e he p' p hp' hp => hentries e he f hf p p' hp hp']
  constructor
  · exact fun hall => .map _ hall.1 hall.2 fun _ _ hst => hst
  · intro hst
    cases hst with
    | map R hsub hsup hR =>
      refine ⟨fun p hp => ?_, fun p' hp' => ?_⟩
      · obtain ⟨p', hp', hkey, hvalue⟩ := hsub p hp
        exact ⟨p', hp', hR _ _ hkey, hR _ _ hvalue⟩
      · obtain ⟨p, hp, hkey, hvalue⟩ := hsup p' hp'
        exact ⟨p, hp, hR _ _ hkey, hR _ _ hvalue⟩

end Members

/-- **Equality is equality of unfoldings**, by induction on the first of them. -/
theorem equal_iff_same (hh : h.WellTyped) (hfv : h.Fits v) (hfw : h.Fits w) (hv : h.Sound n v)
    (hw : h.Sound n w) (hs : h.Unfolds v s) (ht : h.Unfolds w t) :
    h.equal v w = true ↔ s.Same t := by
  -- values of different kinds are not equal, and their unfoldings are trees of different kinds
  have hapart : ∀ {v w : Value} {s t : Unfolding}, v.kind ≠ w.kind → ¬ s.Same t →
      (h.equal v w = true ↔ s.Same t) := fun hkind hne =>
    iff_of_false (fun heq => hkind (kind_eq_of_equal heq)) hne
  induction hs generalizing w t n with
  | @leaf v l hl =>
    rw [equal_iff_leaf? (.inl (Value.ref?_eq_none_of_leaf? hl)), hl]
    cases ht with
    | leaf hl' =>
      rw [hl', Option.some.injEq]
      exact ⟨fun heq => heq ▸ .leaf l, fun hsame => by cases hsame; rfl⟩
    | @sequence _ kind _ _ _ hw' =>
      subst hw'
      cases kind <;> exact iff_of_false nofun nofun
    | map _ hw' =>
      subst hw'
      exact iff_of_false nofun nofun
  | @sequence v kind q ss R hv' hitems hR ih =>
    subst hv'
    cases ht with
    | leaf hl' =>
      rw [equal_iff_leaf? (.inr (Value.ref?_eq_none_of_leaf? hl')), hl']
      cases kind <;> exact iff_of_false nofun nofun
    | @sequence _ kind' r ts R' hw' hitems' hR' =>
      subst hw'
      by_cases hkind : kind = kind'
      · subst hkind
        cases n with
        | zero => cases kind <;> cases hv q rfl
        | succ n =>
          have hq := hv q (by cases kind <;> rfl)
          have hr := hw r (by cases kind <;> rfl)
          refine equal_sequence_iff_same hfv hfw hv hitems hitems' fun a ha b hb s t hs ht => ?_
          exact ih a s hs (hh.contents ha) (hh.contents hb) (hq.contents ha) (hr.contents hb)
            (hR' b t ht)
      · refine hapart ?_ fun hsame => by cases hsame; exact hkind rfl
        cases kind <;> cases kind' <;> first | exact absurd rfl hkind | nofun
    | map _ hw' =>
      subst hw'
      exact hapart (by cases kind <;> nofun) nofun
  | @map v q ps R hv' hentries hR ih =>
    subst hv'
    cases ht with
    | leaf hl' =>
      rw [equal_iff_leaf? (.inr (Value.ref?_eq_none_of_leaf? hl')), hl']
      exact iff_of_false nofun nofun
    | @sequence _ kind _ _ _ hw' =>
      subst hw'
      exact hapart (by cases kind <;> nofun) nofun
    | @map _ r qs R' hw' hentries' hR' =>
      subst hw'
      cases n with
      | zero => cases hv q rfl
      | succ n =>
        refine equal_map_iff_same hfv hfw hv hw hentries hentries' fun a ha b hb s t hs ht => ?_
        exact ih a s hs (hh.contents ha) (hh.contents hb) ((hv q rfl).contents ha)
          ((hw r rfl).contents hb) (hR' b t ht)

/-! ### The comparison that carries nothing -/

/-- The comparison comes to an end with the answer.  It opens all aggregates of one kind; with
`shortcut`, it takes a cell for equal to itself instead. -/
inductive Compares (h : Heap) (shortcut : Bool) : Value → Value → Bool → Prop where
  | plain {v w : Value} (hplain : v.ref? = none ∨ w.ref? = none) :
      Compares h shortcut v w (equalPlain v w)
  | kinds {v w : Value} {r s : Ref} (hr : v.ref? = some r) (hs : w.ref? = some s)
      (hkind : v.kind ≠ w.kind) : Compares h shortcut v w false
  | self {v w : Value} {r : Ref} (hon : shortcut = true) (hr : v.ref? = some r)
      (hs : w.ref? = some r) (hkind : v.kind = w.kind) : Compares h shortcut v w true
  | contents {v w : Value} {r s : Ref} (same : Value → Value → Bool) (hr : v.ref? = some r)
      (hs : w.ref? = some s) (hkind : v.kind = w.kind) (hoff : shortcut = true → r ≠ s)
      (hsame : ∀ a ∈ h.contents r, ∀ b ∈ h.contents s, Compares h shortcut a b (same a b)) :
      Compares h shortcut v w (h.sameContents same r s)

/-- There is one answer. -/
theorem Compares.unique {shortcut a b : Bool} (ha : h.Compares shortcut v w a)
    (hb : h.Compares shortcut v w b) : a = b := by
  induction ha generalizing b with
  | plain hplain =>
    -- each rule excludes the others by its conditions on cells and kinds
    cases hb with
    | plain _ => rfl
    | kinds hr hs _ | self _ hr hs _ | contents _ hr hs _ _ _ => simp [hr, hs] at hplain
  | kinds hr hs hkind =>
    cases hb with
    | plain hplain => simp [hr, hs] at hplain
    | kinds _ _ _ => rfl
    | self _ _ _ hkind' | contents _ _ _ hkind' _ _ => exact absurd hkind' hkind
  | self hon hr hs hkind =>
    cases hb with
    | plain hplain => simp [hr, hs] at hplain
    | kinds _ _ hkind' => exact absurd hkind hkind'
    | self _ _ _ _ => rfl
    | contents _ hr' hs' _ hoff _ =>
      rw [hr, Option.some.injEq] at hr'
      rw [hs, Option.some.injEq] at hs'
      exact absurd (hr'.symm.trans hs') (hoff hon)
  | contents same hr hs hkind hoff _ ih =>
    cases hb with
    | plain hplain => simp [hr, hs] at hplain
    | kinds _ _ hkind' => exact absurd hkind hkind'
    | self hon hr' hs' _ =>
      rw [hr, Option.some.injEq] at hr'
      rw [hs, Option.some.injEq] at hs'
      exact absurd (hr'.trans hs'.symm) (hoff hon)
    | contents same' hr' hs' _ _ hsame' =>
      rw [hr, Option.some.injEq] at hr'
      rw [hs, Option.some.injEq] at hs'
      subst hr' hs'
      -- both answers come from comparisons of the contents, which agree by induction
      exact sameContents_congr rfl rfl (fun a ha b hb => ih a ha b hb (hsame' a ha b hb))
        fun _ _ => rfl

/-- A comparison with a value without a cell is decided at once. -/
theorem compares_of_plain {shortcut : Bool} (hplain : v.ref? = none ∨ w.ref? = none) :
    h.Compares shortcut v w (h.equal v w) := by
  unfold equal
  rw [equalFrom_of_plain hplain]
  exact .plain hplain

/-- The induction is on the pairs of cells that are met in each other. -/
theorem compares_of_settles {shortcut : Bool} {p : Ref × Ref} (hp : h.Settles p)
    (hq : v.ref? = some p.1) (hr : w.ref? = some p.2)
    (hsound : shortcut = false → ∃ n, h.Sound n v) : h.Compares shortcut v w (h.equal v w) := by
  induction hp generalizing v w with
  | intro p hacc ih =>
    have hiff := equal_iff_of_settles ⟨p, hacc⟩ hq hr
    by_cases hkind : v.kind = w.kind
    · by_cases hself : shortcut = true ∧ p.1 = p.2
      · rw [hiff.2 ⟨hkind, .inl hself.2⟩]
        exact .self hself.1 hq (hself.2 ▸ hr) hkind
      -- a cell that is opened although it is compared with itself is sound
      have hcontents : h.equal v w = h.sameContents h.equal p.1 p.2 := by
        rw [Bool.eq_iff_iff, hiff, and_iff_right hkind]
        refine or_iff_right_of_imp fun hqr => ?_
        obtain ⟨n, hn⟩ := hsound (Bool.eq_false_iff.2 fun hon => hself ⟨hon, hqr⟩)
        exact ((equal_iff_sameContents hn hq hr).1 (hiff.2 ⟨hkind, .inl hqr⟩)).2
      rw [hcontents]
      refine .contents h.equal hq hr hkind (fun hon hqr => hself ⟨hon, hqr⟩) fun a ha b hb => ?_
      cases hq' : a.ref? with
      | none => exact compares_of_plain (.inl hq')
      | some q' =>
        cases hr' : b.ref? with
        | none => exact compares_of_plain (.inr hr')
        | some r' =>
          refine ih (q', r') ⟨⟨a, ha, hq'⟩, b, hb, hr'⟩ hq' hr' fun hoff => ?_
          obtain ⟨n, hn⟩ := hsound hoff
          exact ⟨n, (hn p.1 hq).succ.contents ha⟩
    · rw [Bool.eq_false_iff.2 fun heq => hkind (hiff.1 heq).1]
      exact .kinds hq hr hkind

/-- **The comparison comes to an end** where every walk into the two values does.  Without the short
way the first must be sound, for it may have to be found equal to itself. -/
theorem compares_equal {shortcut : Bool}
    (hend : ∀ q r, v.ref? = some q → w.ref? = some r → h.Settles (q, r))
    (hsound : shortcut = false → ∃ n, h.Sound n v) : h.Compares shortcut v w (h.equal v w) := by
  cases hq : v.ref? with
  | none => exact compares_of_plain (.inl hq)
  | some q =>
    cases hr : w.ref? with
    | none => exact compares_of_plain (.inr hr)
    | some r => exact compares_of_settles (hend q r hq hr) hq hr hsound

/-! ### Regular values -/

/-- Nothing that the value reaches contains itself, and the maps that it reaches are filed. -/
structure Regular (h : Heap) (v : Value) : Prop where
  fits : h.Fits v
  acyclic : ∀ r, h.Reaches v r → ¬ h.ContainsItself r
  filed : h.FiledWithin v

/-- A value in which nothing goes round could be detached, so every way in it ends. -/
theorem Regular.exists_sound (hh : h.WellTyped) (hv : h.Regular v) : ∃ n, h.Sound n v := by
  cases hd : h.detach v with
  | error kind =>
    obtain ⟨r, hr, hself⟩ := (exists_detach_eq_error_iff hh hv.fits).1 ⟨kind, hd⟩
    exact absurd hself (hv.acyclic r hr)
  | ok p => exact Heap.exists_sound hh hv.fits hv.filed (ends_of_detachFrom hh [] v hv.fits hd)

/-- Regular values are sound to one depth. -/
theorem exists_sound_of_regular {vs : List Value} (hh : h.WellTyped)
    (hvs : ∀ v ∈ vs, h.Regular v) : ∃ n, ∀ v ∈ vs, h.Sound n v :=
  exists_sound_of_forall fun v hv => (hvs v hv).exists_sound hh

/-- What is in a sealed part is regular. -/
theorem Sealed.regular {K : Ref → Prop} (hK : h.Sealed K) (hv : v.In K) (hfits : h.Fits v) :
    h.Regular v where
  fits := hfits
  acyclic _ hr := hK.not_containsItself (hK.closed.of_reaches hv hr)
  filed r hr := (hK r (hK.closed.of_reaches hv hr)).2.1

/-- Equality of regular values is an equivalence. -/
theorem equivalence_equal (hh : h.WellTyped) :
    Equivalence fun v w : {v // h.Regular v} => h.equal v w = true where
  refl v := h.equal_refl v
  symm {v w} heq := by
    have hvw : ∀ x ∈ [v.1, w.1], h.Regular x := by simp [v.2, w.2]
    obtain ⟨n, hn⟩ := exists_sound_of_regular hh hvw
    exact equal_symm (hn v (by simp)) (hn w (by simp)) heq
  trans {u v w} huv hvw := by
    have huvw : ∀ x ∈ [u.1, v.1, w.1], h.Regular x := by simp [u.2, v.2, w.2]
    obtain ⟨n, hn⟩ := exists_sound_of_regular hh huvw
    exact equal_trans (hn u (by simp)) (hn v (by simp)) (hn w (by simp)) huv hvw

/-- A comparison of regular values has one answer, with or without the shortcut. -/
theorem Regular.compares_iff {shortcut answer : Bool} (hh : h.WellTyped) (hv : h.Regular v) :
    h.Compares shortcut v w answer ↔ answer = h.equal v w := by
  obtain ⟨n, hn⟩ := hv.exists_sound hh
  have hcompares : h.Compares shortcut v w (h.equal v w) :=
    compares_equal (fun q r hq _ => (hn q hq).settles r) fun _ => ⟨n, hn⟩
  exact ⟨fun hanswer => hanswer.unique hcompares, fun heq => heq ▸ hcompares⟩

/-- Regular values are equal exactly when they have the same structure. -/
theorem Regular.equal_iff_eq (hh : h.WellTyped) (hv : h.Regular v) (hw : h.Regular w)
    (hs : h.Unfolds v s) (ht : h.Unfolds w t) :
    h.equal v w = true ↔ (⟦s⟧ : Structure) = ⟦t⟧ := by
  have hvw : ∀ x ∈ [v, w], h.Regular x := by simp [hv, hw]
  obtain ⟨n, hn⟩ := exists_sound_of_regular hh hvw
  rw [equal_iff_same hh hv.fits hw.fits (hn v (by simp)) (hn w (by simp)) hs ht]
  exact (Quotient.eq (r := Unfolding.setoid)).symm

/-- **Equality of regular values.**  The comparison comes to an end, whether or not it takes a cell
for equal to itself, and with the same answer; it is an equivalence; it is equality of structures;
and equal values are filed alike. -/
theorem equal_regular (h : Heap) (hh : h.WellTyped) :
    (∀ v w, h.Regular v → h.Regular w → ∀ shortcut answer,
      h.Compares shortcut v w answer ↔ answer = h.equal v w) ∧
    (Equivalence fun v w : {v // h.Regular v} => h.equal v w = true) ∧
    (∀ v, h.Regular v → ∃! s, h.Unfolds v s) ∧
    (∀ v w s t, h.Regular v → h.Regular w → h.Unfolds v s → h.Unfolds w t →
      (h.equal v w = true ↔ (⟦s⟧ : Structure) = ⟦t⟧)) ∧
    ∀ v w, h.equal v w = true → h.fingerprint v = h.fingerprint w := by
  refine ⟨fun v w hv _ _ _ => hv.compares_iff hh, equivalence_equal hh, fun v hv => ?_,
    fun v w s t hv hw => hv.equal_iff_eq hh hw, fun v w => fingerprint_eq_of_equal⟩
  -- regular values unfold to a finite depth, and two unfoldings of one value are alike
  obtain ⟨n, hn⟩ := hv.exists_sound hh
  obtain ⟨s, hs⟩ := hn.exists_unfolds
  exact ⟨s, hs, fun t ht => hs.unique ht⟩

/-- Two maps with the same entries in different orders; the keys are tuples. -/
def reordered : Heap where
  cells := #[.tuple #[.atom "x"], .tuple #[.atom "x"], .tuple #[],
    .map ⟨3, [⟨.tuple 1, .tuple 0, .tuple 2⟩, ⟨.tuple 0, .tuple 2, .tuple 0⟩]⟩,
    .map ⟨3, [⟨.tuple 0, .tuple 2, .tuple 1⟩, ⟨.tuple 1, .tuple 1, .tuple 2⟩]⟩]

/-- The tables of the example are filed. -/
theorem filed_reordered (r : Ref) : reordered.Filed (reordered.table r) := by
  match r with
  | 0 | 1 | 2 => exact filed_withRoom _ 0
  | 3 | 4 => exact ⟨by simp [reordered, table, fingerprint, items], by decide +kernel⟩
  | r + 5 => exact filed_withRoom _ 0

/-- The example is sealed. -/
theorem sealed_reordered : reordered.Sealed (· < 5) := by
  intro r hr
  refine ⟨hr, filed_reordered r, ?_⟩
  have hcases : ∀ n : Nat, n < 5 → n = 0 ∨ n = 1 ∨ n = 2 ∨ n = 3 ∨ n = 4 := by omega
  rcases hcases r hr with rfl | rfl | rfl | rfl | rfl <;>
    simp [contents, reordered, items, table, Value.ref?, Table.empty, Table.withRoom]

/-- The example is well typed. -/
theorem wellTyped_reordered : reordered.WellTyped := by
  have htuple : ∀ r < 3, reordered.Fits (.tuple r) := by
    rintro r hr _ ⟨⟩
    match r, hr with
    | 0, _ | 1, _ | 2, _ => exact ⟨_, rfl, rfl⟩
  have hatom : ∀ name, reordered.Fits (.atom name) := fun _ => nofun
  -- cells 3 and 4 are the maps, and the tuples before them are their keys and values
  intro r c hc
  match r with
  | 0 | 1 =>
    cases hc
    exact Cell.holds_tuple (by simp [hatom])
  | 2 =>
    cases hc
    exact Cell.holds_tuple (by simp)
  | 3 | 4 =>
    cases hc
    exact Cell.holds_map (by simp [Table.Holds, htuple])
  | r + 5 => cases hc

/-- The order of the entries is not to be seen in the structure. -/
theorem equal_regular_reordered :
    reordered.WellTyped ∧ reordered.Regular (.map 3) ∧ reordered.Regular (.map 4) ∧
      (∀ shortcut, reordered.Compares shortcut (.map 3) (.map 4) true) ∧
      ∃ s t, reordered.Unfolds (.map 3) s ∧ reordered.Unfolds (.map 4) t ∧
        (⟦s⟧ : Structure) = ⟦t⟧ := by
  have hregular : ∀ r, 3 ≤ r → r < 5 → reordered.Regular (.map r) := by
    intro r hle hlt
    refine sealed_reordered.regular ?_ ?_
    · rintro _ ⟨⟩
      exact hlt
    · rintro _ ⟨⟩
      match r, hle, hlt with
      | 3, _, _ | 4, _, _ => exact ⟨_, rfl, rfl⟩
  have hthree := hregular 3 (by decide) (by decide)
  have hfour := hregular 4 (by decide) (by decide)
  have hequal : reordered.equal (.map 3) (.map 4) = true := by decide +kernel
  obtain ⟨hcompares, -, hunfolds, hstructure, -⟩ := equal_regular reordered wellTyped_reordered
  obtain ⟨s, hs, -⟩ := hunfolds _ hthree
  obtain ⟨t, ht, -⟩ := hunfolds _ hfour
  exact ⟨wellTyped_reordered, hthree, hfour,
    fun shortcut => (hcompares _ _ hthree hfour shortcut true).2 hequal.symm, s, t, hs, ht,
    (hstructure _ _ s t hthree hfour hs ht).1 hequal⟩

/-- Two maps with equal keys and values.  The key of the first has been lengthened since it was
filed. -/
def lengthened : Heap where
  cells := #[.list #[.atom "x", .atom "y"], .map ⟨3, [⟨.list 1, .list 0, .atom "a"⟩]⟩,
    .list #[.atom "x", .atom "y"], .map ⟨3, [⟨.list 2, .list 2, .atom "a"⟩]⟩]

/-- That maps are filed cannot be dropped: here equality is not symmetric, though each map has one
key and nothing goes round. -/
theorem equal_lengthened :
    lengthened.equal (.map 1) (.map 3) = true ∧ lengthened.equal (.map 3) (.map 1) = false := by
  refine ⟨by decide +kernel, by decide +kernel⟩

end Heap

end AtomScript
