import AtomScript.Proofs.Heap.Cells
import AtomScript.Proofs.Heap.Visited

/-!
# Copying

A detached copy is made by adding cells, one for each aggregate met, and never by changing one.  A
`Copying` says what is to be kept up meanwhile: of the heap that grows (`Inv`), of the values that
have been copied (`Val`) and of the tables that are being filled (`Tab`), given what is known of the
values that are read (`Source`).  `Copying.of_detach` is what follows for a whole copy, and
`Heap.of_detach_values` its plainest case: a copy of values with a property holds such values.
-/

namespace AtomScript.Heap

/-- Every cell of the first heap is in the second, with the same contents. -/
def Extends (h g : Heap) : Prop :=
  ∀ (r : Ref) (c : Cell), h.cells[r]? = some c → g.cells[r]? = some c

variable {h g k : Heap} {α β : Type}

/-- A heap extends itself. -/
theorem Extends.refl (h : Heap) : h.Extends h := fun _ _ hc => hc

/-- Extensions compose. -/
theorem Extends.trans (hg : h.Extends g) (hk : g.Extends k) : h.Extends k :=
  fun r c hc => hk r c (hg r c hc)

/-- One more cell is an extension. -/
theorem extends_push (h : Heap) (c : Cell) : h.Extends (h.push c) := by
  intro r c' hc
  rw [cell_push, if_neg (Nat.ne_of_lt (h.lt_size_of_cell hc))]
  exact hc

/-- An extension is no smaller. -/
theorem Extends.size_le (hg : h.Extends g) : h.size ≤ g.size := by
  -- were the second heap smaller, the first would have a cell past its end
  refine Nat.le_of_not_lt fun hlt => ?_
  obtain ⟨c, hc⟩ := h.exists_cell hlt
  exact Nat.lt_irrefl _ (g.lt_size_of_cell (hg g.size c hc))

/-- An extension leaves the old cells. -/
theorem Extends.cell_eq (hg : h.Extends g) {r : Ref} (hr : r < h.size) :
    g.cells[r]? = h.cells[r]? := by
  obtain ⟨c, hc⟩ := h.exists_cell hr
  rw [hc, hg r c hc]

/-- What a value that satisfies `V` refers to holds such values. -/
def Opens (h : Heap) (V : Value → Prop) : Prop :=
  ∀ v r, V v → v.ref? = some r → (∀ x ∈ h.items r, V x) ∧ (h.table r).Holds V V

/-- A condition that a heap holds is open to its contents. -/
theorem Holds.opens {V : Value → Prop} (hh : h.Holds V V) : h.Opens V :=
  fun _ r _ _ => ⟨fun _ hx => hh.items hx, hh.table r⟩

/-! ### Steps of copying -/

/-- A copying in two steps succeeds in both. -/
theorem copy_bind_eq_ok {x : Copy α} {f : α → Copy β} {b : β}
    (heq : (x >>= f) h = .ok (b, k)) : ∃ a g, x h = .ok (a, g) ∧ f a g = .ok (b, k) := by
  change (x h >>= fun p => f p.1 p.2) = _ at heq
  cases hx : x h with
  | error e =>
    rw [hx] at heq
    cases heq
  | ok p =>
    rw [hx] at heq
    exact ⟨p.1, p.2, rfl, heq⟩

/-- What is kept up while a copy of values of the heap `h` is made. -/
structure Copying (h : Heap) where
  /-- What is known of the values that are read. -/
  Source : Value → Prop
  /-- What is kept up of the heap that holds the copy. -/
  Inv : Heap → Prop
  /-- What is kept up of the values copied so far. -/
  Val : Heap → Value → Prop
  /-- What is kept up of the tables in the making. -/
  Tab : Heap → Table → Prop
  val_mono : ∀ {g k v}, g.Extends k → Val g v → Val k v
  tab_mono : ∀ {g k t}, g.Extends k → Inv g → Inv k → Tab g t → Tab k t
  /-- Values without a cell are their own copies. -/
  leaf : ∀ {g v}, Source v → (∀ r, v.ref? = some r → ¬ r < h.size) → Val g v
  withRoom : ∀ {g n}, Tab g (.withRoom n)
  insert : ∀ {g t key value}, Inv g → Tab g t → Val g key → Val g value →
    Tab g (g.insert t key value)
  sequence : ∀ (kind : SequenceKind) {g} {vs : List Value}, Inv g → (∀ v ∈ vs, Val g v) →
    Inv (g.push (.ofSequence kind vs.toArray)) ∧
      Val (g.push (.ofSequence kind vs.toArray)) (.ofSequence kind g.size)
  map : ∀ {g t}, Inv g → Tab g t → Inv (g.push (.map t)) ∧ Val (g.push (.map t)) (.map g.size)

namespace Copying

variable (C : Copying h)

/-- If the step succeeds, it only adds cells, and its result satisfies the predicate. -/
def Step (Q : Heap → α → Prop) (x : Copy α) : Prop :=
  ∀ g a k, C.Inv g → x g = .ok (a, k) → g.Extends k ∧ C.Inv k ∧ Q k a

variable {C} {Q : Heap → α → Prop} {R : Heap → β → Prop}

/-- Giving a value copies nothing. -/
theorem step_pure {a : α} (hQ : ∀ g, C.Inv g → Q g a) : C.Step Q (pure a) := by
  intro g a' k hg heq
  cases heq
  exact ⟨.refl g, hg, hQ g hg⟩

/-- A refused copying has no result to describe. -/
theorem step_throw {kind : Kind} : C.Step Q (throw kind) := by
  intro g a k _ heq
  cases heq

/-- One copying after another. -/
theorem step_bind {x : Copy α} {f : α → Copy β} (hx : C.Step Q x)
    (hf : ∀ a k, C.Inv k → Q k a → ∀ b k', f a k = .ok (b, k') →
      k.Extends k' ∧ C.Inv k' ∧ R k' b) :
    C.Step R (x >>= f) := by
  intro g b k' hg heq
  -- cells added by either step stay
  obtain ⟨a, k, ha, hb⟩ := copy_bind_eq_ok heq
  obtain ⟨hext, hinv, hQ⟩ := hx g a k hg ha
  obtain ⟨hext', hinv', hR⟩ := hf a k hinv hQ b k' hb
  exact ⟨hext.trans hext', hinv', hR⟩

/-- A copying for each element of a row. -/
theorem step_copyAll {copy : α → Copy β} {as : List α}
    (mono : ∀ g k b, g.Extends k → R g b → R k b) (hcopy : ∀ a ∈ as, C.Step R (copy a)) :
    C.Step (fun g bs => ∀ b ∈ bs, R g b) (copyAll copy as) := by
  induction as with
  | nil =>
    unfold copyAll
    exact step_pure fun g _ b hb => by cases hb
  | cons a as ih =>
    unfold copyAll
    refine step_bind (hcopy a List.mem_cons_self) fun b k hk hb => ?_
    intro bs k' heq
    obtain ⟨bs', k₁, hbs, hlast⟩ := copy_bind_eq_ok heq
    cases hlast
    -- the copies made so far outlive the steps that follow, which only add cells
    have hrest := ih (fun a' ha' => hcopy a' (List.mem_cons_of_mem a ha'))
    obtain ⟨hext, hinv, hall⟩ := hrest k bs' k' hk hbs
    refine ⟨hext, hinv, fun c hc => ?_⟩
    rcases List.mem_cons.1 hc with rfl | hc
    · exact mono k k' c hext hb
    · exact hall c hc

/-- Gathering adds no cell. -/
theorem of_gather {t u : Table} {es : List (Value × Value)} (hg : C.Inv g) (ht : C.Tab g t)
    (hes : ∀ e ∈ es, C.Val g e.1 ∧ C.Val g e.2) (heq : gather t es g = .ok (u, k)) :
    k = g ∧ C.Tab g u := by
  induction es generalizing t with
  | nil =>
    unfold gather at heq
    cases heq
    exact ⟨rfl, ht⟩
  | cons e es ih =>
    obtain ⟨key, value⟩ := e
    obtain ⟨hkey, hvalue⟩ := hes _ List.mem_cons_self
    exact ih (C.insert hg ht hkey hvalue) (fun e he => hes e (List.mem_cons_of_mem _ he)) heq

/-! ### Copies of sequences and maps -/

/-- Copying the elements into a new sequence. -/
theorem step_sequence (kind : SequenceKind) {copy : Value → Copy Value} {vs : List Value}
    (hcopy : ∀ v ∈ vs, C.Step C.Val (copy v)) :
    C.Step C.Val (do
      let items ← copyAll copy vs
      return .ofSequence kind (← allocCopy (.ofSequence kind items.toArray))) := by
  have hitems := step_copyAll (R := C.Val) (fun _ _ _ hext hv => C.val_mono hext hv) hcopy
  refine step_bind hitems fun items k hk hitems => ?_
  intro v k' heq
  cases heq
  obtain ⟨hinv, hval⟩ := C.sequence kind hk hitems
  exact ⟨extends_push k _, hinv, hval⟩

/-- Copying a key and its value. -/
theorem step_entry {copy : Value → Copy Value} {e : Entry × Nat}
    (hkey : C.Step C.Val (copy e.1.key)) (hvalue : C.Step C.Val (copy e.1.value)) :
    C.Step (fun g p => C.Val g p.1.1 ∧ C.Val g p.1.2) (do
      let key ← copy e.1.key
      let value ← copy e.1.value
      return ((key, value), e.2)) := by
  refine step_bind hkey fun key k hk hval => ?_
  intro p k' heq
  obtain ⟨value, k₁, hv, hlast⟩ := copy_bind_eq_ok heq
  cases hlast
  obtain ⟨hext, hinv, hval'⟩ := hvalue k value k' hk hv
  exact ⟨hext, hinv, C.val_mono hext hval, hval'⟩

/-- Copying the entries into a new map, in the order they are put in turn. -/
theorem step_map {copy : Value → Copy Value} {es : List (Entry × Nat)}
    (hcopy : ∀ e ∈ es, C.Step C.Val (copy e.1.key) ∧ C.Step C.Val (copy e.1.value)) :
    C.Step C.Val (do
      let copies ← copyAll
        (fun e => do
          let key ← copy e.1.key
          let value ← copy e.1.value
          return ((key, value), e.2)) es
      let entries := inTurn copies
      let t ← gather (.withRoom entries.length) entries
      return .map (← allocCopy (.map t))) := by
  have hcopies := step_copyAll
    (R := fun g (p : (Value × Value) × Nat) => C.Val g p.1.1 ∧ C.Val g p.1.2)
    (fun _ _ _ hext hp => ⟨C.val_mono hext hp.1, C.val_mono hext hp.2⟩)
    fun e he => step_entry (hcopy e he).1 (hcopy e he).2
  refine step_bind hcopies fun copies k hk hall => ?_
  intro v k' heq
  obtain ⟨t, k₁, ht, hlast⟩ := copy_bind_eq_ok heq
  -- the entries are gathered in turn, which loses none and adds none
  have hentries : ∀ p ∈ inTurn copies, C.Val k p.1 ∧ C.Val k p.2 := fun p hp => by
    obtain ⟨n, hn⟩ := mem_inTurn.1 hp
    exact hall _ hn
  obtain ⟨rfl, htab⟩ := of_gather hk C.withRoom hentries ht
  cases hlast
  obtain ⟨hinv, hval⟩ := C.map hk htab
  exact ⟨extends_push k₁ _, hinv, hval⟩

/-- **Copying a value**, by induction along the walk into it. -/
theorem step_detachFrom (hh : h.Opens C.Source) (path : List Ref) {v : Value}
    (hv : C.Source v) : C.Step C.Val (h.detachFrom path v) := by
  -- the walk reads the heap `h` throughout, while the copies go into the heap that grows
  fun_induction detachFrom h path v with
  | case1 path v hnone =>
    exact step_pure fun g _ => C.leaf hv fun r hr => by simp [hnone] at hr
  | case2 path v r hr hp => exact step_throw
  | case3 path r hp hr s hs ihkey ihvalue =>
    refine step_map fun e he => ?_
    obtain ⟨hkey, hvalue⟩ := (hh _ r hv hs).2 e.1 (mem_entries_of_visited he)
    exact ⟨ihkey e hkey, ihvalue e hvalue⟩
  | case4 path r hp hr s hs ih =>
    exact step_sequence .list fun x hx => ih x ((hh _ r hv hs).1 x (by simpa using hx))
  | case5 path v r hs hp hr _ _ ih =>
    exact step_sequence .tuple fun x hx => ih x ((hh v r hv hs).1 x (by simpa using hx))
  | case6 path v r hr hp hsize =>
    -- a reference to nowhere is its own copy
    refine step_pure fun g _ => C.leaf hv fun s hs => ?_
    rw [hr, Option.some.injEq] at hs
    exact hs ▸ hsize

/-- **A detached copy** leaves the cells of the heap alone, and keeps up what copying keeps up. -/
theorem of_detach (hh : h.Opens C.Source) (hinv : C.Inv h) {v copy : Value}
    (hv : C.Source v) (heq : h.detach v = .ok (copy, g)) :
    h.Extends g ∧ C.Inv g ∧ C.Val g copy :=
  step_detachFrom hh [] hv h copy g hinv heq

end Copying

/-- Copying leaves the places in maps as they are. -/
def hashingCopying (h : Heap) : h.Copying where
  Source _ := True
  Inv g := g.hashing = h.hashing
  Val _ _ := True
  Tab _ _ := True
  val_mono _ _ := trivial
  tab_mono _ _ _ _ := trivial
  leaf _ _ := trivial
  withRoom := trivial
  insert _ _ _ _ := trivial
  sequence _ _ _ hg _ := ⟨hg, trivial⟩
  map hg _ := ⟨hg, trivial⟩

/-- Detaching a key leaves the hashing of the heap. -/
theorem hashing_of_detach {v copy : Value} (heq : h.detach v = .ok (copy, g)) :
    g.hashing = h.hashing :=
  (h.hashingCopying.of_detach (fun _ _ _ _ => ⟨fun _ _ => trivial, fun _ _ => ⟨trivial, trivial⟩⟩)
    rfl trivial heq).2.1

/-! ### Copies of values with a property -/

section Values

variable {V : Value → Prop}

/-- The copy of values that satisfy `V`, where the new aggregates all do. -/
def valueCopying (hV : ∀ v r, v.ref? = some r → h.size ≤ r → V v) : h.Copying where
  Source := V
  Inv g := h.size ≤ g.size ∧ ∀ (r : Ref) (c : Cell), h.size ≤ r → g.cells[r]? = some c → c.Holds V V
  Val _ v := V v
  Tab _ t := t.Holds V V
  val_mono _ hv := hv
  tab_mono _ _ _ ht := ht
  leaf hv _ := hv
  withRoom := Table.holds_withRoom _
  insert _ ht hkey hvalue := holds_insert _ ht hkey hvalue
  sequence kind {g vs} hg hvs := by
    have hc : (Cell.ofSequence kind vs.toArray).Holds V V := by
      cases kind with
      | tuple => exact Cell.holds_tuple (by simpa using hvs)
      | list => exact Cell.holds_list (by simpa using hvs)
    -- the new cell is behind the old ones, and holds what the members were shown to be
    refine ⟨⟨by simp only [size_push]; omega, fun r c hr hget => ?_⟩, ?_⟩
    · rw [cell_push] at hget
      split at hget
      · cases hget
        exact hc
      · exact hg.2 r c hr hget
    · cases kind with
      | tuple => exact hV _ g.size rfl hg.1
      | list => exact hV _ g.size rfl hg.1
  map {g t} hg ht := by
    refine ⟨⟨by simp only [size_push]; omega, fun r c hr hget => ?_⟩, hV _ g.size rfl hg.1⟩
    rw [cell_push] at hget
    split at hget
    · cases hget
      exact Cell.holds_map ht
    · exact hg.2 r c hr hget

/-- **A copy of a value with a property**: the new cells hold values with the property. -/
theorem of_detach_values (hV : ∀ v r, v.ref? = some r → h.size ≤ r → V v) (hh : h.Opens V)
    {v copy : Value} (hv : V v) (heq : h.detach v = .ok (copy, g)) :
    h.Extends g ∧ V copy ∧
      ∀ (r : Ref) (c : Cell), h.size ≤ r → g.cells[r]? = some c → c.Holds V V := by
  -- at the start there are no new cells
  have hstart : (valueCopying hV).Inv h := by
    refine ⟨Nat.le_refl _, fun r c hr hc => ?_⟩
    exact absurd (h.lt_size_of_cell hc) (Nat.not_lt.2 hr)
  obtain ⟨hext, hinv, hcopy⟩ := (valueCopying hV).of_detach hh hstart hv heq
  exact ⟨hext, hcopy, hinv.2⟩

/-- When all values of the heap have the property, and all aggregates do, the copy adds to them. -/
theorem Holds.detach (hV : ∀ v r, v.ref? = some r → V v) (hh : h.Holds V V) {v copy : Value}
    (hv : V v) (heq : h.detach v = .ok (copy, g)) : g.Holds V V ∧ V copy := by
  obtain ⟨hext, hcopy, hnew⟩ := of_detach_values (fun v r hr _ => hV v r hr) hh.opens hv heq
  refine ⟨fun r c hc => ?_, hcopy⟩
  by_cases hr : r < h.size
  · rw [hext.cell_eq hr] at hc
    exact hh r c hc
  · exact hnew r c (Nat.le_of_not_lt hr) hc

end Values

end AtomScript.Heap
