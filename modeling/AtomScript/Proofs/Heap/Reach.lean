import AtomScript.Proofs.Heap.Sealed
import AtomScript.Proofs.Heap.Shift
import Mathlib.Logic.Relation

/-!
# What a value reaches

A cell points to the cells of the values it holds, and a value reaches the cells on the way from its
own.  An aggregate that is reached from itself *contains itself*.

Detaching is a walk along these ways that keeps the cells open behind it.  It fails exactly when
what the value reaches contains itself (`Heap.exists_detach_eq_error_iff`): a walk that comes back
to an open cell has gone round, and a walk that ends has seen all there is to see.

The heaps of sessions are *well-typed*: a tuple refers to a cell that holds a tuple, and so on.
-/

namespace AtomScript.Heap

/-- The first cell holds a reference to the second. -/
def PointsTo (h : Heap) (r s : Ref) : Prop :=
  ∃ v ∈ h.contents r, v.ref? = some s

/-- The cell is the value's own, or is reached from it. -/
def Reaches (h : Heap) (v : Value) (r : Ref) : Prop :=
  ∃ s, v.ref? = some s ∧ Relation.ReflTransGen h.PointsTo s r

/-- The aggregate contains itself, directly or through others. -/
def ContainsItself (h : Heap) (r : Ref) : Prop :=
  Relation.TransGen h.PointsTo r r

/-- If the value is an aggregate, its cell is there and holds an aggregate of its kind. -/
def Fits (h : Heap) (v : Value) : Prop :=
  ∀ r, v.ref? = some r → ∃ c, h.cells[r]? = some c ∧ c.kind = v.kind

/-- All that is held refers to cells of its kind. -/
def WellTyped (h : Heap) : Prop := h.Holds h.Fits h.Fits

variable {h g k : Heap} {K : Ref → Prop} {v w : Value} {r s : Ref} {path : List Ref}

/-! ### Ways -/

theorem Reaches.self (hr : v.ref? = some r) : h.Reaches v r := ⟨r, hr, .refl⟩

/-- What a member of an aggregate reaches, the aggregate reaches. -/
theorem Reaches.of_member (hr : v.ref? = some r) (hw : w ∈ h.contents r) (hs : h.Reaches w s) :
    h.Reaches v s := by
  obtain ⟨q, hq, hway⟩ := hs
  exact ⟨r, hr, .head ⟨w, hw, hq⟩ hway⟩

/-- A member that leads back to the aggregate makes it contain itself. -/
theorem Reaches.containsItself (hw : w ∈ h.contents r) (hr : h.Reaches w r) :
    h.ContainsItself r := by
  obtain ⟨q, hq, hway⟩ := hr
  exact .head' ⟨w, hw, hq⟩ hway

/-- No way leads out of a closed region. -/
theorem Closed.of_reaches (hK : h.Closed K) (hv : v.In K) (hr : h.Reaches v r) : K r := by
  obtain ⟨s, hs, hway⟩ := hr
  induction hway with
  | refl => exact hv s hs
  | tail _ hp ih =>
    obtain ⟨w, hw, hq⟩ := hp
    exact hK ih hw _ hq

theorem Sealed.of_pointsTo (hK : h.Sealed K) (hr : K r) (hp : h.PointsTo r s) : K s ∧ s < r := by
  obtain ⟨v, hv, hs⟩ := hp
  exact (hK r hr).2.2 v hv s hs

/-- References go down, so none come back. -/
theorem Sealed.not_containsItself (hK : h.Sealed K) (hr : K r) : ¬ h.ContainsItself r := by
  -- along any path the addresses decrease
  have hdown : ∀ s, Relation.TransGen h.PointsTo r s → K s ∧ s < r := by
    intro s hs
    induction hs with
    | single hp => exact hK.of_pointsTo hr hp
    | tail _ hp ih =>
      obtain ⟨hKs, hlt⟩ := hK.of_pointsTo ih.1 hp
      exact ⟨hKs, Nat.lt_trans hlt ih.2⟩
  exact fun hself => Nat.lt_irrefl r (hdown r hself).2

/-! ### Well-typed heaps -/

theorem Fits.lt_size (hv : h.Fits v) (hr : v.ref? = some r) : r < h.size := by
  obtain ⟨c, hc, -⟩ := hv r hr
  exact h.lt_size_of_cell hc

/-- A map holds no elements. -/
theorem Fits.items_of_map (hv : h.Fits (.map r)) : h.items r = #[] := by
  obtain ⟨c, hc, hkind⟩ := hv r rfl
  rw [h.items_of_cell hc]
  cases c with
  | map t => rfl
  | _ => cases hkind

/-- A sequence holds no entries. -/
theorem Fits.entries_of_sequence (hv : h.Fits v) (hr : v.ref? = some r) (hmap : v ≠ .map r) :
    (h.table r).entries = [] := by
  obtain ⟨c, hc, hkind⟩ := hv r hr
  rw [h.table_of_cell hc]
  cases c with
  | map t =>
    -- the cell of a map has been ruled out
    cases v with
    | map q =>
      cases hr
      exact absurd rfl hmap
    | _ => cases hkind
  | _ => rfl

theorem WellTyped.contents (hh : h.WellTyped) (hw : w ∈ h.contents r) : h.Fits w := by
  rcases List.mem_append.1 hw with hw | hw
  · exact hh.items (by simpa using hw)
  · obtain ⟨e, he, hw⟩ := List.mem_flatMap.1 hw
    rcases List.mem_cons.1 hw with rfl | hw
    · exact (hh.table r e he).1
    · rw [List.mem_singleton.1 hw]
      exact (hh.table r e he).2

/-! ### The walk fails when it comes back -/

theorem copy_bind_eq_error {α β : Type} {x : Copy α} {f : α → Copy β} {kind : Kind}
    (heq : (x >>= f) g = .error kind) :
    x g = .error kind ∨ ∃ a k, x g = .ok (a, k) ∧ f a k = .error kind := by
  change (x g >>= fun p => f p.1 p.2) = _ at heq
  cases hx : x g with
  | error e =>
    rw [hx] at heq
    cases heq
    exact .inl rfl
  | ok p =>
    rw [hx] at heq
    exact .inr ⟨p.1, p.2, rfl, heq⟩

/-- Copying a list fails at one of its members. -/
theorem exists_of_copyAll_error {α β : Type} {copy : α → Copy β} {as : List α} {kind : Kind}
    (heq : copyAll copy as g = .error kind) : ∃ a ∈ as, ∃ k, copy a k = .error kind := by
  induction as generalizing g with
  | nil => cases heq
  | cons a as ih =>
    unfold copyAll at heq
    rcases copy_bind_eq_error heq with hfirst | ⟨b, k, -, heq⟩
    · exact ⟨a, List.mem_cons_self, g, hfirst⟩
    · rcases copy_bind_eq_error heq with hrest | ⟨bs, k', -, hlast⟩
      · obtain ⟨a', ha', hcopy⟩ := ih hrest
        exact ⟨a', List.mem_cons_of_mem a ha', hcopy⟩
      · cases hlast

theorem gather_ne_error {t : Table} {es : List (Value × Value)} {kind : Kind} :
    gather t es g ≠ .error kind := by
  induction es generalizing t with
  | nil => exact nofun
  | cons e es ih => exact ih

/-- Copying an aggregate fails at one of the values in it. -/
theorem exists_of_copyContents_error {copy : Value → Copy Value} {kind : Kind}
    (heq : h.copyContents copy v r g = .error kind) :
    ∃ w ∈ h.contents r, ∃ k, copy w k = .error kind := by
  -- the two kinds of sequences are copied alike
  have hsequence : ∀ seq, copySequence seq copy (h.items r).toList g = .error kind →
      ∃ w ∈ h.contents r, ∃ k, copy w k = .error kind := by
    intro seq hseq
    rcases copy_bind_eq_error hseq with hitems | ⟨items, k, -, hlast⟩
    · obtain ⟨w, hw, hcopy⟩ := exists_of_copyAll_error hitems
      exact ⟨w, mem_contents_items hw, hcopy⟩
    · cases hlast
  cases v with
  | map q =>
    rcases copy_bind_eq_error heq with hentries | ⟨es, k, -, heq⟩
    · obtain ⟨e, he, k, hentry⟩ := exists_of_copyAll_error hentries
      have he := mem_entries_of_visited he
      rcases copy_bind_eq_error hentry with hkey | ⟨key, k', -, hvalue⟩
      · exact ⟨e.1.key, mem_contents_key he, k, hkey⟩
      · rcases copy_bind_eq_error hvalue with hvalue | ⟨value, k', -, hlast⟩
        · exact ⟨e.1.value, mem_contents_value he, k', hvalue⟩
        · cases hlast
    · rcases copy_bind_eq_error heq with hgather | ⟨t, k', -, hlast⟩
      · exact absurd hgather gather_ne_error
      · cases hlast
  | list q => exact hsequence .list heq
  | _ => exact hsequence .tuple heq

/-- **A walk that fails has gone round.**  The cells open behind it all lead to the value. -/
theorem containsItself_of_detachFrom (path : List Ref) (v : Value) {g : Heap} {kind : Kind}
    (hpath : ∀ p ∈ path, ∀ r, v.ref? = some r → Relation.TransGen h.PointsTo p r)
    (heq : h.detachFrom path v g = .error kind) : ∃ r, h.Reaches v r ∧ h.ContainsItself r := by
  cases hv : v.ref? with
  | none =>
    rw [detachFrom_of_plain hv] at heq
    cases heq
  | some r =>
    rw [detachFrom_of_ref hv] at heq
    by_cases hp : r ∈ path
    · exact ⟨r, .self hv, hpath r hp r hv⟩
    rw [if_neg hp] at heq
    by_cases hr : r < h.size
    · rw [if_pos hr] at heq
      -- a member was refused, and every cell on the way leads to the member
      obtain ⟨w, hw, k, hcopy⟩ := exists_of_copyContents_error heq
      have hopen : ∀ p ∈ r :: path, ∀ s, w.ref? = some s →
          Relation.TransGen h.PointsTo p s := by
        intro p hp s hs
        rcases List.mem_cons.1 hp with rfl | hp
        · exact .single ⟨w, hw, hs⟩
        · exact .tail (hpath p hp r hv) ⟨w, hw, hs⟩
      obtain ⟨s, hreach, hself⟩ := containsItself_of_detachFrom (r :: path) w hopen hcopy
      exact ⟨s, hreach.of_member hv hw, hself⟩
    · rw [if_neg hr] at heq
      cases heq
termination_by unopened path h.refs
decreasing_by exact unopened_cons_lt (mem_refs.2 hr) hp

/-! ### The walk that ends has seen everything -/

/-- Every way from the cell comes to an end. -/
def Ends (h : Heap) (r : Ref) : Prop := Acc (fun s r => h.PointsTo r s) r

/-- Where every way ends, none comes back. -/
theorem Ends.not_containsItself (hr : h.Ends r) : ¬ h.ContainsItself r :=
  fun hself => not_transGen_of_acc hr (Relation.transGen_swap.2 hself)

theorem Ends.of_reaches (hv : ∀ s, v.ref? = some s → h.Ends s) (hr : h.Reaches v r) :
    h.Ends r := by
  obtain ⟨s, hs, hway⟩ := hr
  induction hway with
  | refl => exact hv s hs
  | tail _ hp ih => exact ih.inv hp

theorem exists_of_copyAll_ok {α β : Type} {copy : α → Copy β} {as : List α} {bs : List β}
    (heq : copyAll copy as g = .ok (bs, k)) : ∀ a ∈ as, ∃ k₁ b k₂, copy a k₁ = .ok (b, k₂) := by
  induction as generalizing g k bs with
  | nil => simp
  | cons a as ih =>
    unfold copyAll at heq
    obtain ⟨b, k₁, hfirst, heq⟩ := copy_bind_eq_ok heq
    obtain ⟨bs', k₂, hrest, -⟩ := copy_bind_eq_ok heq
    exact List.forall_mem_cons.2 ⟨⟨g, b, k₁, hfirst⟩, ih hrest⟩

/-- To copy an aggregate of a well-typed heap is to copy all that is in it. -/
theorem exists_of_copyContents_ok {copy : Value → Copy Value} (hv : h.Fits v)
    (hr : v.ref? = some r) (heq : h.copyContents copy v r g = .ok (w, k)) :
    ∀ x ∈ h.contents r, ∃ k₁ y k₂, copy x k₁ = .ok (y, k₂) := by
  -- a sequence has no entries, so its contents are its elements
  have hsequence : ∀ seq, (h.table r).entries = [] →
      copySequence seq copy (h.items r).toList g = .ok (w, k) →
      ∀ x ∈ h.contents r, ∃ k₁ y k₂, copy x k₁ = .ok (y, k₂) := by
    intro seq hnone hseq x hx
    obtain ⟨items, k₁, hitems, -⟩ := copy_bind_eq_ok hseq
    unfold contents at hx
    rw [hnone, List.flatMap_nil, List.append_nil] at hx
    exact exists_of_copyAll_ok hitems x hx
  cases v with
  | map q =>
    cases hr
    intro x hx
    obtain ⟨es, k₁, hentries, -⟩ := copy_bind_eq_ok heq
    unfold contents at hx
    rw [hv.items_of_map, List.nil_append] at hx
    obtain ⟨e, he, hx⟩ := List.mem_flatMap.1 hx
    obtain ⟨n, hn⟩ := exists_mem_visited he
    obtain ⟨k₁, p, k₂, hentry⟩ := exists_of_copyAll_ok hentries (e, n) hn
    obtain ⟨key, k₃, hkey, hrest⟩ := copy_bind_eq_ok hentry
    obtain ⟨value, k₄, hvalue, -⟩ := copy_bind_eq_ok hrest
    rcases List.mem_cons.1 hx with rfl | hx
    · exact ⟨_, _, _, hkey⟩
    · rw [List.mem_singleton.1 hx]
      exact ⟨_, _, _, hvalue⟩
  | list q => exact hsequence .list (hv.entries_of_sequence hr nofun) heq
  | tuple q => exact hsequence .tuple (hv.entries_of_sequence hr nofun) heq
  | _ => cases hr

/-- **A walk that succeeds has followed every way to its end.** -/
theorem ends_of_detachFrom (hh : h.WellTyped) (path : List Ref) (v : Value) (hv : h.Fits v)
    {g k : Heap} {w : Value} (heq : h.detachFrom path v g = .ok (w, k)) :
    ∀ r, v.ref? = some r → h.Ends r := by
  cases hv' : v.ref? with
  | none => exact nofun
  | some r =>
    have hr := hv.lt_size hv'
    rw [detachFrom_of_ref hv'] at heq
    by_cases hp : r ∈ path
    · rw [if_pos hp] at heq
      cases heq
    rw [if_neg hp, if_pos hr] at heq
    -- every member was copied, so each of them comes to an end
    rintro _ ⟨⟩
    refine ⟨r, fun s ⟨x, hx, hs⟩ => ?_⟩
    obtain ⟨k₁, y, k₂, hcopy⟩ := exists_of_copyContents_ok hv hv' heq x hx
    exact ends_of_detachFrom hh (r :: path) x (hh.contents hx) hcopy s hs
termination_by unopened path h.refs
decreasing_by exact unopened_cons_lt (mem_refs.2 hr) hp

/-- **Detaching fails exactly when something in the value contains itself.** -/
theorem exists_detach_eq_error_iff (hh : h.WellTyped) (hv : h.Fits v) :
    (∃ kind, h.detach v = .error kind) ↔ ∃ r, h.Reaches v r ∧ h.ContainsItself r := by
  constructor
  · rintro ⟨kind, heq⟩
    exact containsItself_of_detachFrom [] v (by simp) heq
  · rintro ⟨r, hreach, hself⟩
    cases heq : h.detach v with
    | error kind => exact ⟨kind, rfl⟩
    | ok p =>
      have hends := ends_of_detachFrom hh [] v hv heq
      exact absurd hself (Ends.of_reaches hends hreach).not_containsItself

end AtomScript.Heap
