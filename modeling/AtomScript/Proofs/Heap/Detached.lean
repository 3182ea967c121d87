import AtomScript.Eval.Monad
import AtomScript.Proofs.Heap.Twin

/-!
# Detached copies

What a map files is a copy of the key.  Copying adds a cell for each aggregate that it comes to,
after the cells of what is in it, and leaves all other cells as they are.  So the copy is a twin of
the value, and the cells that it goes through are the new ones, each of them once
(`Heap.Copied`) — also where the value comes to one cell in several ways.

Maps are the delicate part.  The copies of the entries are filed one after the other, and a copy
whose key is equal to one filed before replaces its value.  That no entry is lost rests on the keys
of the map being unequal, and on their copies being equal to them (`Heap.Copied.distinct`); and it
fails where entries are filed under what their keys once were, for then keys that are unequal can
have equal copies.
-/

namespace AtomScript

/-- The keys of a table with their values. -/
def Table.pairs (t : Table) : List (Value × Value) :=
  t.entries.map fun e => (e.key, e.value)

/-- The keys and values of a table, read off its pairs. -/
theorem Table.flatMap_pairs (t : Table) :
    (t.pairs.flatMap fun p => [p.1, p.2]) = t.entries.flatMap fun e => [e.key, e.value] :=
  List.flatMap_map ..

namespace Heap

variable {h g k k' : Heap} {K : Ref → Prop} {v w : Value} {vs ws : List Value} {r s : Ref}
  {path : List Ref} {n : Nat}

/-! ### The cells of a value -/

/-- The cells that a walk into the value goes through, one for each time that it comes to an
aggregate; those of the members come before it.  The walk is cut off at depth `n`. -/
def places (h : Heap) : Nat → Value → List Ref
  | 0, _ => []
  | n + 1, v =>
    match v.ref? with
    | none => []
    | some r => (h.contents r).flatMap (h.places n) ++ [r]

/-- A value without a cell has no places. -/
theorem places_of_plain (hv : v.ref? = none) : h.places n v = [] := by
  cases n with
  | zero => rfl
  | succ n => simp only [places, hv]

/-- The places of a value are those of its contents and its own. -/
theorem places_of_ref (hr : v.ref? = some r) :
    h.places (n + 1) v = (h.contents r).flatMap (h.places n) ++ [r] := by
  simp only [places, hr]

/-- Two heaps that agree on a closed part have the same places there. -/
theorem Agree.places_eq (hg : h.Agree g K) (hclosed : h.Closed K) (hv : v.In K) :
    g.places n v = h.places n v := by
  induction n generalizing v with
  | zero => rfl
  | succ n ih =>
    cases hr : v.ref? with
    | none => rw [places_of_plain hr, places_of_plain hr]
    | some r =>
      have hKr := hv r hr
      rw [places_of_ref hr, places_of_ref hr, contents_congr (hg r hKr),
        List.flatMap_congr fun w hw => ih (hclosed hKr hw)]

/-! ### Sound values -/

/-- In a well-typed heap nothing leads out of it. -/
theorem WellTyped.closed (hh : h.WellTyped) : h.Closed (· < h.size) :=
  fun _ _ _ hv _ hs => (hh.contents hv).lt_size hs

/-- A sound value is in the heap. -/
theorem Sound.lt_size (hv : h.Sound n v) : v.In (· < h.size) := by
  intro r hr
  have hsound := hv r hr
  cases n with
  | zero => cases hsound
  | succ n => exact hsound.1

/-- What is sound to some depth is sound to any larger one. -/
theorem Sound.mono {m : Nat} (hv : h.Sound n v) (hle : n ≤ m) : h.Sound m v :=
  fun r hr => (hv r hr).mono hle

/-- A closed part is closed in every heap that agrees on it. -/
theorem Closed.agree (hclosed : h.Closed K) (hg : h.Agree g K) : g.Closed K := by
  intro r hr v hv
  rw [contents_congr (hg r hr)] at hv
  exact hclosed hr hv

/-- Values that are each sound to some depth are all sound to one. -/
theorem exists_sound_of_forall (hvs : ∀ v ∈ vs, ∃ n, h.Sound n v) :
    ∃ n, ∀ v ∈ vs, h.Sound n v := by
  induction vs with
  | nil => exact ⟨0, by simp⟩
  | cons v vs ih =>
    obtain ⟨hv, hvs⟩ := List.forall_mem_cons.1 hvs
    obtain ⟨m, hm⟩ := hv
    obtain ⟨n, hn⟩ := ih hvs
    refine ⟨max m n, List.forall_mem_cons.2 ⟨hm.mono (Nat.le_max_left m n), fun w hw => ?_⟩⟩
    exact (hn w hw).mono (Nat.le_max_right m n)

/-- Where every way ends and the maps on them are filed, values are sound. -/
theorem Ends.exists_soundCell (hh : h.WellTyped) (hr : h.Ends r) (hlt : r < h.size)
    (hfiled : ∀ s, Relation.ReflTransGen h.PointsTo r s → h.Filed (h.table s)) :
    ∃ n, h.SoundCell n r := by
  induction hr with
  | intro r _ ih =>
    -- one depth serves all members, of which there are finitely many
    have hmembers : ∀ v ∈ h.contents r, ∃ n, h.Sound n v := by
      intro v hv
      cases hs : v.ref? with
      | none => exact ⟨0, fun s hs' => by simp [hs] at hs'⟩
      | some s =>
        have hp : h.PointsTo r s := ⟨v, hv, hs⟩
        obtain ⟨n, hn⟩ := ih s hp ((hh.contents hv).lt_size hs) fun q hq => hfiled q (.head hp hq)
        refine ⟨n, fun s' hs' => ?_⟩
        rw [hs] at hs'
        cases hs'
        exact hn
    obtain ⟨n, hn⟩ := exists_sound_of_forall hmembers
    exact ⟨n + 1, hlt, hfiled r .refl, hn⟩

/-! ### Lists of values and their copies -/

/-- While the heap grew from the second to the third, the values of the first heap were copied. -/
structure Copied (h k k' : Heap) (vs ws : List Value) : Prop where
  keeps : k.Extends k'
  sealed : k'.Sealed (h.Fresh k')
  fresh : ∀ w ∈ ws, w.In (h.Fresh k')
  twins : List.Forall₂ (h.Twin k') vs ws
  /-- The copies go through the cells added meanwhile, through each of them once. -/
  places : ∀ n, (∀ w ∈ ws, w.In (· < n)) →
    (ws.flatMap (k'.places n)).Perm (List.range' k.size (k'.size - k.size))

/-- Twins stay twins when cells are added. -/
theorem Twin.extends {h' g' : Heap} (ht : h.Twin g v w) (hh : h.Extends h') (hg : g.Extends g') :
    h'.Twin g' v w :=
  ht.congr (fun _ _ hr => hh.cell_eq hr) fun _ _ hr => hg.cell_eq hr

/-- Copying nothing changes nothing. -/
theorem copied_nil (hk : k.Sealed (h.Fresh k)) : h.Copied k k [] [] where
  keeps := .refl k
  sealed := hk
  fresh := by simp
  twins := .nil
  places n _ := by simp

/-- A plain value is its own copy. -/
theorem copied_plain (hk : k.Sealed (h.Fresh k)) (hv : v.ref? = none) : h.Copied k k [v] [v] where
  keeps := .refl k
  sealed := hk
  fresh w hw r hr := by
    rw [List.mem_singleton.1 hw, hv] at hr
    cases hr
  twins := .cons (.plain hv) .nil
  places n _ := by simp [places_of_plain hv]

/-- Two copyings, one after the other, are one. -/
theorem Copied.append {k₁ k₂ : Heap} {vs' ws' : List Value} (hc : h.Copied k k₁ vs ws)
    (hc' : h.Copied k₁ k₂ vs' ws') : h.Copied k k₂ (vs ++ vs') (ws ++ ws') where
  keeps := hc.keeps.trans hc'.keeps
  sealed := hc'.sealed
  fresh w hw := by
    rcases List.mem_append.1 hw with hw | hw
    · exact fun r hr => (hc.fresh w hw r hr).mono hc'.keeps
    · exact hc'.fresh w hw
  twins := List.rel_append (hc.twins.imp fun _ _ ht => ht.extends (.refl h) hc'.keeps) hc'.twins
  places n hn := by
    -- the cells of the first copies are not touched by the second
    have hagree : k₁.Agree k₂ (h.Fresh k₁) := hc'.keeps.agree fun r hr => hr.2
    have hfirst : ws.flatMap (k₂.places n) = ws.flatMap (k₁.places n) :=
      List.flatMap_congr fun w hw => hagree.places_eq hc.sealed.closed (hc.fresh w hw)
    have hle := hc.keeps.size_le
    have hle' := hc'.keeps.size_le
    have hmid : k₁.size = k.size + (k₁.size - k.size) := by omega
    have hall : k₂.size - k.size = (k₁.size - k.size) + (k₂.size - k₁.size) := by omega
    rw [List.flatMap_append, hfirst, hall, ← List.range'_append_1, ← hmid]
    exact (hc.places n fun w hw => hn w (List.mem_append_left _ hw)).append
      (hc'.places n fun w hw => hn w (List.mem_append_right _ hw))

/-! ### A new cell for an aggregate -/

/-- A condition on the contents is a condition on the cell. -/
theorem holds_of_contents {V : Value → Prop} {c : Cell} (hc : h.cells[r]? = some c)
    (hV : ∀ v ∈ h.contents r, V v) : c.Holds V V := by
  have hitems := h.items_of_cell hc
  have htable := h.table_of_cell hc
  refine ⟨fun v hv => ?_, fun e he => ?_⟩
  · exact hV v (mem_contents_items (by simpa [hitems] using hv))
  · rw [← htable] at he
    exact ⟨hV e.key (mem_contents_key he), hV e.value (mem_contents_value he)⟩

/-- Lists of entries whose keys and values are in step. -/
theorem forall₂_of_flatMap {α β : Type} {R : Value → Value → Prop} {key value : α → Value}
    {key' value' : β → Value} {es : List α} {fs : List β}
    (hR : List.Forall₂ R (es.flatMap fun e => [key e, value e])
      (fs.flatMap fun f => [key' f, value' f])) :
    List.Forall₂ (fun e f => R (key e) (key' f) ∧ R (value e) (value' f)) es fs := by
  induction es generalizing fs with
  | nil =>
    cases fs with
    | nil => exact .nil
    | cons f fs => cases hR
  | cons e es ih =>
    cases fs with
    | nil => cases hR
    | cons f fs =>
      -- a key and a value at a time
      cases hR with
      | cons hkey hR =>
        cases hR with
        | cons hvalue hR => exact .cons ⟨hkey, hvalue⟩ (ih hR)

/-- The copies of numbered entries, put in turn, are copies of the entries put in turn. -/
theorem Copied.inTurn {es : List (Entry × Nat)} {ps : List ((Value × Value) × Nat)}
    (hc : h.Copied k k' (es.flatMap fun e => [e.1.key, e.1.value])
      (ps.flatMap fun p => [p.1.1, p.1.2]))
    (hnumbers : es.map Prod.snd = ps.map Prod.snd) :
    h.Copied k k' ((inTurn es).flatMap fun e => [e.key, e.value])
      ((inTurn ps).flatMap fun p => [p.1, p.2]) where
  keeps := hc.keeps
  sealed := hc.sealed
  fresh w hw := by
    obtain ⟨p, hp, hw⟩ := List.mem_flatMap.1 hw
    obtain ⟨n, hn⟩ := mem_inTurn.1 hp
    exact hc.fresh w (List.mem_flatMap.2 ⟨_, hn, hw⟩)
  twins := by
    -- entries and copies with the same numbers are put in the same places
    have hsame : List.Forall₂ (fun (e : Entry × Nat) (p : (Value × Value) × Nat) => e.2 = p.2)
        es ps := by
      rw [← List.forall₂_map_right_iff (R := fun (e : Entry × Nat) n => e.2 = n), ← hnumbers,
        List.forall₂_map_right_iff]
      exact List.forall₂_same.2 fun _ _ => rfl
    have hpairs := (forall₂_of_flatMap hc.twins).mp (fun _ _ ht he => And.intro ht he) hsame
    have hsorted := forall₂_byPlace (fun _ _ hep => hep.2) hpairs
    refine List.rel_flatMap (R := fun e p => h.Twin k' e.key p.1 ∧ h.Twin k' e.value p.2) ?_
      fun e p hep => .cons hep.1 (.cons hep.2 .nil)
    exact List.forall₂_map_left_iff.2 (List.forall₂_map_right_iff.2
      (hsorted.imp fun _ _ hep => hep.1))
  places n hn := by
    have hperm : ((Heap.inTurn ps).flatMap fun p => [p.1, p.2]).Perm
        (ps.flatMap fun p => [p.1.1, p.1.2]) := by
      unfold Heap.inTurn
      rw [List.flatMap_map]
      exact (byPlace_perm Prod.snd ps).flatMap_right _
    exact (hperm.flatMap_right _).trans (hc.places n fun w hw => hn w (hperm.mem_iff.2 hw))

/-- Cells with as many elements match if their contents are in step. -/
theorem matched_of_contents {R : Value → Value → Prop} (hr : r < h.size) (hs : s < g.size)
    (hsize : (h.items r).size = (g.items s).size)
    (hR : List.Forall₂ R (h.contents r) (g.contents s)) : h.Matched g R r s := by
  have hlen : (h.items r).toList.length = (g.items s).toList.length := by simpa using hsize
  have hitems := List.forall₂_take (h.items r).toList.length hR
  have hentries := List.forall₂_drop (h.items r).toList.length hR
  unfold contents at hitems hentries
  rw [List.take_left, hlen, List.take_left] at hitems
  rw [List.drop_left, hlen, List.drop_left] at hentries
  exact ⟨hr, hs, hitems, forall₂_of_flatMap hentries⟩

/-- The copies of what an aggregate holds, put in a new cell, are a copy of the aggregate. -/
theorem Copied.close {c : Cell} (hc : h.Copied k k' (h.contents r) ws) (hle : h.size ≤ k'.size)
    (hr : v.ref? = some r) (hlt : r < h.size) (hs : w.ref? = some k'.size)
    (hkind : v.kind = w.kind) (hsize : (h.items r).size = c.items.size)
    (hcontents : (k'.push c).contents k'.size = ws) (hfiled : k'.Filed c.table) :
    h.Copied k (k'.push c) [v] [w] := by
  have hnew : (k'.push c).cells[k'.size]? = some c := by rw [cell_push, if_pos rfl]
  have hext : k'.Extends (k'.push c) := extends_push k' c
  have hself : k'.size < (k'.push c).size := by simp
  have hholds : c.Holds (Value.In (h.Fresh k')) (Value.In (h.Fresh k')) := by
    refine holds_of_contents hnew fun x hx => hc.fresh x ?_
    rwa [hcontents] at hx
  have htwins : List.Forall₂ (h.Twin (k'.push c)) (h.contents r)
      ((k'.push c).contents k'.size) := by
    rw [hcontents]
    exact hc.twins.imp fun _ _ ht => ht.extends (.refl h) hext
  have hmatched : h.Matched (k'.push c) (h.Twin (k'.push c)) r k'.size := by
    refine matched_of_contents hlt hself ?_ htwins
    rw [hsize, items_of_cell _ hnew]
  refine ⟨hc.keeps.trans hext, sealed_fresh_push hle hc.sealed hholds hfiled, ?_, ?_, ?_⟩
  · intro x hx q hq
    rw [List.mem_singleton.1 hx, hs] at hq
    cases hq
    exact ⟨hle, hself⟩
  · exact .cons (.aggregate _ hr hs hkind hmatched fun _ _ ht => ht) .nil
  · intro n hn
    have hlt_n : k'.size < n := hn w List.mem_cons_self k'.size hs
    cases n with
    | zero => cases hlt_n
    | succ n =>
      -- the cells of the members come first, and they are the cells added before this one
      have hmembers : ws.flatMap ((k'.push c).places n) = ws.flatMap (k'.places n) := by
        refine List.flatMap_congr fun x hx => ?_
        exact (hext.agree fun q hq => hq.2).places_eq hc.sealed.closed (hc.fresh x hx)
      have hbound : ∀ x ∈ ws, x.In (· < n) := fun x hx q hq =>
        Nat.lt_of_lt_of_le (hc.fresh x hx q hq).2 (Nat.le_of_lt_succ hlt_n)
      have hk := hc.keeps.size_le
      have hlast : k'.size = k.size + (k'.size - k.size) := by omega
      have hall : (k'.push c).size - k.size = k'.size - k.size + 1 := by
        rw [size_push]
        omega
      rw [List.flatMap_singleton, places_of_ref hs, hcontents, hmembers, hall,
        List.range'_1_concat, ← hlast]
      exact (hc.places n hbound).append_right _

/-! ### Steps of copying -/

/-- In a heap that has grown by a sealed region, the step copies the values if it succeeds. -/
def CopiesTo {α : Type} (h : Heap) (x : Copy α) (vs : List Value) (ws : α → List Value) : Prop :=
  ∀ ⦃k a k'⦄, h.Extends k → k.Sealed (h.Fresh k) → x k = .ok (a, k') → h.Copied k k' vs (ws a)

/-- Copying a row, element by element, copies the row. -/
theorem copiesTo_copyAll {α β : Type} {copy : α → Copy β} {vs : α → List Value}
    {ws : β → List Value} {as : List α} (hcopy : ∀ a ∈ as, h.CopiesTo (copy a) (vs a) ws) :
    h.CopiesTo (copyAll copy as) (as.flatMap vs) (·.flatMap ws) := by
  intro k bs k' hk hsealed heq
  induction as generalizing k bs with
  | nil =>
    cases heq
    exact copied_nil hsealed
  | cons a as ih =>
    obtain ⟨hfirst, hrest⟩ := List.forall_mem_cons.1 hcopy
    unfold copyAll at heq
    obtain ⟨b, k₁, hb, heq⟩ := copy_bind_eq_ok heq
    obtain ⟨bs', k₂, hbs, hlast⟩ := copy_bind_eq_ok heq
    cases hlast
    -- the new cells of the first copies are old ones for the rest
    have hc := hfirst hk hsealed hb
    exact hc.append (ih hrest (hk.trans hc.keeps) hc.sealed hbs)

/-- Copying an entry copies its key and its value. -/
theorem copiesTo_copyEntry {copy : Value → Copy Value} {e : Entry × Nat}
    (hkey : h.CopiesTo (copy e.1.key) [e.1.key] ([·]))
    (hvalue : h.CopiesTo (copy e.1.value) [e.1.value] ([·])) :
    h.CopiesTo (copyEntry copy e) [e.1.key, e.1.value] fun p => [p.1.1, p.1.2] := by
  intro k p k' hk hsealed heq
  obtain ⟨key, k₁, hkeyeq, heq⟩ := copy_bind_eq_ok heq
  obtain ⟨value, k₂, hvalueeq, hlast⟩ := copy_bind_eq_ok heq
  cases hlast
  have hc := hkey hk hsealed hkeyeq
  exact hc.append (hvalue (hk.trans hc.keeps) hc.sealed hvalueeq)

/-- The copies of numbered entries have their numbers. -/
theorem numbers_copyAll {copy : Value → Copy Value} {es : List (Entry × Nat)}
    {ps : List ((Value × Value) × Nat)} (heq : copyAll (copyEntry copy) es k = .ok (ps, k')) :
    es.map Prod.snd = ps.map Prod.snd := by
  induction es generalizing k ps with
  | nil =>
    cases heq
    rfl
  | cons e es ih =>
    -- an entry keeps its place in the table through the copying
    unfold copyAll at heq
    obtain ⟨p, k₁, hp, heq⟩ := copy_bind_eq_ok heq
    obtain ⟨ps', k₂, hps, hlast⟩ := copy_bind_eq_ok heq
    obtain ⟨key, k₃, -, hp⟩ := copy_bind_eq_ok hp
    obtain ⟨value, k₄, -, hp⟩ := copy_bind_eq_ok hp
    cases hlast
    cases hp
    exact congrArg (e.2 :: ·) (ih hps)

/-- Copying the elements of a sequence into a new one copies the sequence. -/
theorem copiesTo_copySequence (kind : SequenceKind) {copy : Value → Copy Value}
    (hr : v.ref? = some r) (hlt : r < h.size) (hkind : v.kind = (Value.ofSequence kind r).kind)
    (hnone : (h.table r).entries = [])
    (hcopy : ∀ x ∈ h.contents r, h.CopiesTo (copy x) [x] ([·])) :
    h.CopiesTo (copySequence kind copy (h.items r).toList) [v] ([·]) := by
  intro k w k' hk hsealed heq
  obtain ⟨items, k₁, hitems, hlast⟩ := copy_bind_eq_ok heq
  cases hlast
  -- a sequence has elements only
  have hcontents : h.contents r = (h.items r).toList := by
    unfold contents
    rw [hnone, List.flatMap_nil, List.append_nil]
  have hc : h.Copied k k₁ (h.contents r) items := by
    have hall := copiesTo_copyAll (fun x hx => hcopy x (mem_contents_items hx)) hk hsealed hitems
    dsimp only at hall
    rwa [List.flatMap_singleton', List.flatMap_singleton', ← hcontents] at hall
  have hsize : (h.items r).size = items.length := by
    have hlen := hc.twins.length_eq
    rwa [hcontents, Array.length_toList] at hlen
  -- the copy of the sequence itself is the last cell to be added
  have hle := (hk.trans hc.keeps).size_le
  cases kind with
  | tuple =>
    refine hc.close hle hr hlt rfl hkind hsize ?_ (filed_withRoom _ 0)
    rw [contents_of_cell (c := .tuple items.toArray) (by rw [cell_push, if_pos rfl]; rfl)]
    simp [Cell.items, Cell.table, Table.empty, Table.withRoom]
  | list =>
    refine hc.close hle hr hlt rfl hkind hsize ?_ (filed_withRoom _ 0)
    rw [contents_of_cell (c := .list items.toArray) (by rw [cell_push, if_pos rfl]; rfl)]
    simp [Cell.items, Cell.table, Table.empty, Table.withRoom]

/-! ### Gathering the copies of entries -/

/-- Making room leaves the pairs of a table. -/
theorem pairs_makeRoom (h : Heap) (t : Table) : (h.makeRoom t).pairs = t.pairs := by
  unfold makeRoom Table.pairs
  split
  · rfl
  · rw [List.map_map]
    rfl

/-- A key that no key is equal to comes last. -/
theorem pairs_insert {t : Table} {key value : Value}
    (hnew : ∀ p ∈ t.pairs, h.equal key p.1 = false) :
    (h.insert t key value).pairs = t.pairs ++ [(key, value)] := by
  -- no entry answers to the key, so it goes to the end
  have hnone : h.contains (h.makeRoom t) key = false := by
    refine List.any_eq_false.2 fun e he => ?_
    have hpair : (e.key, e.value) ∈ t.pairs := by
      rw [← pairs_makeRoom h t]
      exact List.mem_map_of_mem he
    unfold answers
    rw [hnew _ hpair, Bool.and_false]
    exact Bool.false_ne_true
  unfold insert
  simp only [hnone]
  change ((h.makeRoom t).entries ++ _).map _ = _
  rw [List.map_append]
  exact congrArg (· ++ _) (pairs_makeRoom h t)

/-- Entries with unequal keys are all gathered, in order. -/
theorem of_gather_distinct {t u : Table} {es : List (Value × Value)} (ht : k.Filed t)
    (hdistinct : (t.pairs ++ es).Pairwise fun p q => k.equal q.1 p.1 = false)
    (heq : gather t es k = .ok (u, k')) : k' = k ∧ k.Filed u ∧ u.pairs = t.pairs ++ es := by
  induction es generalizing t with
  | nil =>
    cases heq
    exact ⟨rfl, ht, (List.append_nil _).symm⟩
  | cons e es ih =>
    obtain ⟨key, value⟩ := e
    -- the keys are different in pairs, so each one is new to the table before it
    have hnew : ∀ p ∈ t.pairs, k.equal key p.1 = false := fun p hp =>
      (List.pairwise_append.1 hdistinct).2.2 p hp _ List.mem_cons_self
    have hinsert : (k.insert t key value).pairs = t.pairs ++ [(key, value)] := pairs_insert hnew
    rw [List.append_cons, ← hinsert] at hdistinct ⊢
    exact ih ht.insert hdistinct heq

/-! ### The keys of a copy -/

section Keys

variable (hh : h.WellTyped) (hk : h.Extends k) (hsealed : k.Sealed (h.Fresh k))

include hh hk hsealed

/-- A sound value is equal to its copy. -/
theorem Twin.equal_copy (ht : h.Twin k v w) (hv : h.Sound n v) (hw : w.In (h.Fresh k)) :
    k.Sound (max n k.size) v ∧ k.Sound (max n k.size) w ∧ k.equal v w = true := by
  -- the old cells are as they were, so the value is as sound as it was
  have hagree : h.Agree k (· < h.size) := hk.agree fun _ hr => hr
  have hv' : k.Sound (max n k.size) v := by
    refine Sound.mono (n := n) (fun r hr => ?_) (Nat.le_max_left _ _)
    exact (hv r hr).agree hagree hh.closed (hv.lt_size r hr)
  have hw' : k.Sound (max n k.size) w := (hsealed.sound hw).mono (Nat.le_max_right _ _)
  exact ⟨hv', hw', (ht.extends hk (.refl k)).equal hv' hw'⟩

/-- **Copies of unequal values are unequal.** -/
theorem Twin.equal_eq_false {v' w' : Value} (ht : h.Twin k v w) (ht' : h.Twin k v' w')
    (hv : h.Sound n v) (hv' : h.Sound n v') (hw : w.In (h.Fresh k)) (hw' : w'.In (h.Fresh k))
    (hne : h.equal v v' = false) : k.equal w w' = false := by
  obtain ⟨hsv, hsw, hvw⟩ := ht.equal_copy hh hk hsealed hv hw
  obtain ⟨hsv', hsw', hvw'⟩ := ht'.equal_copy hh hk hsealed hv' hw'
  have hagree : h.Agree k (· < h.size) := hk.agree fun _ hr => hr
  have hold : k.equal v v' = false := by
    rw [hagree.equal_eq hh.closed hv.lt_size hv'.lt_size, hne]
  -- were the copies equal, the values would be, each being equal to its copy
  refine Bool.eq_false_iff.2 fun hww' => ?_
  have hvw'' : k.equal v w' = true := equal_trans hsv hsw hsw' hvw hww'
  have hvv' : k.equal v v' = true := equal_trans hsv hsw' hsv' hvw'' (equal_symm hsv' hsw' hvw')
  rw [hold] at hvv'
  cases hvv'

end Keys

/-- Copies of different keys are different. -/
theorem Copied.distinct {es : List Entry} {ps : List (Value × Value)} (hh : h.WellTyped)
    (hk : h.Extends k) (hc : h.Copied k k' (es.flatMap fun e => [e.key, e.value])
      (ps.flatMap fun p => [p.1, p.2]))
    (hsound : ∀ e ∈ es, h.Sound n e.key)
    (hdistinct : es.Pairwise fun e f => h.equal f.key e.key = false) :
    ps.Pairwise fun p q => k'.equal q.1 p.1 = false := by
  have htwins := forall₂_of_flatMap hc.twins
  have hfresh : ∀ p ∈ ps, p.1.In (h.Fresh k') := fun p hp =>
    hc.fresh p.1 (List.mem_flatMap.2 ⟨p, hp, List.mem_cons_self⟩)
  rw [List.pairwise_iff_getElem] at hdistinct ⊢
  -- two copies at two places are twins of the keys at these places
  intro i j hi hj hij
  have hi' : i < es.length := htwins.length_eq ▸ hi
  have hj' : j < es.length := htwins.length_eq ▸ hj
  exact (htwins.get hj' hj).1.equal_eq_false hh (hk.trans hc.keeps) hc.sealed (htwins.get hi' hi).1
    (hsound _ (List.getElem_mem hj')) (hsound _ (List.getElem_mem hi'))
    (hfresh _ (List.getElem_mem hj)) (hfresh _ (List.getElem_mem hi))
    (hdistinct i j hi' hj' hij)

/-- Copying the entries of a map into a new one copies the map. -/
theorem copiesTo_copyMap {copy : Value → Copy Value} (hh : h.WellTyped) (hv : h.Fits (.map r))
    (hsound : h.SoundCell (n + 1) r)
    (hcopy : ∀ x ∈ h.contents r, h.CopiesTo (copy x) [x] ([·])) :
    h.CopiesTo (copyMap copy (h.visited r)) [.map r] ([·]) := by
  intro k w k' hk hsealed heq
  obtain ⟨copies, k₁, hcopies, heq⟩ := copy_bind_eq_ok heq
  obtain ⟨t, k₂, hgather, hlast⟩ := copy_bind_eq_ok heq
  cases hlast
  have hcontents : h.contents r = (h.table r).entries.flatMap fun e => [e.key, e.value] := by
    unfold contents
    rw [hv.items_of_map, List.nil_append]
  have hvisited := copiesTo_copyAll (fun e he => by
    have he := mem_entries_of_visited he
    exact copiesTo_copyEntry (hcopy e.1.key (mem_contents_key he))
      (hcopy e.1.value (mem_contents_value he))) hk hsealed hcopies
  -- put in turn, they are the copies of the entries as the map lists them
  have hc := hvisited.inTurn (numbers_copyAll hcopies)
  rw [inTurn_visited] at hc
  generalize inTurn copies = ps at hc hgather
  have hdistinct := hc.distinct hh hk (fun e he => hsound.contents (mem_contents_key he))
    hsound.2.1.distinct
  -- so the table holds the copies of all entries
  obtain ⟨rfl, hfiled, hpairs⟩ := of_gather_distinct (filed_withRoom k₁ ps.length)
    (by simpa [Table.pairs, Table.withRoom] using hdistinct) hgather
  rw [← hcontents] at hc
  refine hc.close (hk.trans hc.keeps).size_le rfl (hv.lt_size rfl) rfl rfl ?_ ?_ hfiled
  · rw [hv.items_of_map]
    rfl
  · rw [contents_of_cell (c := .map t) (by rw [cell_push, if_pos rfl])]
    change [] ++ (t.entries.flatMap fun e => [e.key, e.value]) = ps.flatMap fun p => [p.1, p.2]
    rw [List.nil_append, ← t.flatMap_pairs, hpairs]
    rfl

/-! ### The walk -/

/-- **A sound value is copied**, by induction on its depth: whatever cells are open behind it, if
the walk succeeds it has made a copy. -/
theorem copiesTo_detachFrom (hh : h.WellTyped) (path : List Ref) (hv : h.Fits v)
    (hsound : h.Sound n v) : h.CopiesTo (h.detachFrom path v) [v] ([·]) := by
  induction n generalizing v path with
  | zero =>
    have hnone : v.ref? = none := by
      cases hr : v.ref? with
      | none => rfl
      | some r => cases hsound r hr
    intro k w k' _ hsealed heq
    rw [detachFrom_of_plain hnone] at heq
    cases heq
    exact copied_plain hsealed hnone
  | succ n ih =>
    intro k w k' hk hsealed heq
    cases hr : v.ref? with
    | none =>
      rw [detachFrom_of_plain hr] at heq
      cases heq
      exact copied_plain hsealed hr
    | some r =>
      have hlt := hv.lt_size hr
      rw [detachFrom_of_ref hr] at heq
      by_cases hp : r ∈ path
      · rw [if_pos hp] at heq
        cases heq
      rw [if_neg hp, if_pos hlt] at heq
      -- the members are less deep, and the walk into them has one more cell open
      have hmembers : ∀ x ∈ h.contents r, h.CopiesTo (h.detachFrom (r :: path) x) [x] ([·]) :=
        fun x hx => ih (r :: path) (hh.contents hx) ((hsound r hr).contents hx)
      cases v with
      | map q =>
        cases hr
        exact copiesTo_copyMap hh hv (hsound r rfl) hmembers hk hsealed heq
      | list q =>
        exact copiesTo_copySequence .list hr hlt rfl (hv.entries_of_sequence hr nofun) hmembers hk
          hsealed heq
      | tuple q =>
        exact copiesTo_copySequence .tuple hr hlt rfl (hv.entries_of_sequence hr nofun) hmembers hk
          hsealed heq
      | _ => cases hr

/-- The maps that the value reaches are filed, and their keys are unequal. -/
def FiledWithin (h : Heap) (v : Value) : Prop :=
  ∀ r, h.Reaches v r → h.Filed (h.table r)

/-- A value that fits, whose maps are filed and which has an end, is sound to some depth. -/
theorem exists_sound (hh : h.WellTyped) (hv : h.Fits v) (hfiled : h.FiledWithin v)
    (hends : ∀ r, v.ref? = some r → h.Ends r) : ∃ n, h.Sound n v := by
  cases hr : v.ref? with
  | none => exact ⟨0, fun r hr' => by simp [hr] at hr'⟩
  | some r =>
    obtain ⟨n, hn⟩ := (hends r hr).exists_soundCell hh (hv.lt_size hr) fun s hs =>
      hfiled s ⟨r, hr, hs⟩
    refine ⟨n, fun r' hr' => ?_⟩
    rw [hr] at hr'
    cases hr'
    exact hn

/-- The value `copy` of the heap `g` is a detached copy of the value `v` of the heap `h`. -/
structure Detached (h g : Heap) (v copy : Value) : Prop where
  equal : g.equal copy v = true
  equal_symm : g.equal v copy = true
  /-- However deep one goes, each new cell is met once, and no other. -/
  places : ∀ n, g.size ≤ n → (g.places n copy).Perm (List.range' h.size (g.size - h.size))
  /-- Edits of what the value reaches do not alter the copy: entry by entry it is what the value
  was, and it is shown so. -/
  lasting : ∀ k : Heap, (∀ r, ¬ g.Reaches v r → k.cells[r]? = g.cells[r]?) →
    h.Twin k v copy ∧ k.inspect copy = h.inspect v

/-- **A copy of a sound value is detached.** -/
theorem Copied.detached {copy : Value} (hh : h.WellTyped) (hsound : h.Sound n v)
    (hclear : h.Clear [] v) (hc : h.Copied h g [v] [copy]) : h.Detached g v copy := by
  have htwin : h.Twin g v copy := by
    cases hc.twins with
    | cons ht _ => exact ht
  have hfresh : copy.In (h.Fresh g) := hc.fresh copy List.mem_cons_self
  obtain ⟨hv, hcopy, hequal⟩ := htwin.equal_copy hh hc.keeps hc.sealed hsound hfresh
  -- the copy equals the value, shares no place with it, and does not change with it
  refine ⟨Heap.equal_symm hv hcopy hequal, hequal, fun n hn => ?_, fun k hk => ?_⟩
  · have hplaces := hc.places n fun w hw r hr =>
      Nat.lt_of_lt_of_le (hc.fresh w hw r hr).2 hn
    rwa [List.flatMap_singleton] at hplaces
  · -- the value reaches old cells only, so the new ones are as they were
    have hold : g.Closed (· < h.size) := hh.closed.agree (hc.keeps.agree fun _ hr => hr)
    have hagree : g.Agree k (h.Fresh g) := fun r hr =>
      hk r fun hreach => Nat.not_lt.2 hr.1 (hold.of_reaches hsound.lt_size hreach)
    have htwin' : h.Twin k v copy := htwin.congr (fun _ _ _ => rfl) fun r hr _ =>
      hagree r (hc.sealed.closed.of_reaches hfresh hr)
    have hsealed' : k.Sealed (h.Fresh g) := hc.sealed.agree hagree
    have hclear' : k.Clear [] copy := by
      refine ⟨fun r hr => ?_, by simp⟩
      exact hsealed'.not_containsItself (hsealed'.closed.of_reaches hfresh hr)
    exact ⟨htwin', (htwin'.inspect_eq hclear hclear').symm⟩

end Heap

/-! ### Keys -/

/-- **Detaching a key.**  It fails, with the state as it was, exactly when something in the value
contains itself.  Otherwise it adds a copy in new cells; and if the maps in the value are filed,
with unequal keys, the copy is a detached one. -/
theorem Eval.detachKey_detached (st : State) (v : Value) (limit : Nat) (hh : st.heap.WellTyped)
    (hv : st.heap.Fits v) :
    ((∃ e, Eval.detachKey v ⟨limit, none⟩ st = (.error e, st) ∧ e.category = "TypeError") ↔
      ∃ r, st.heap.Reaches v r ∧ st.heap.ContainsItself r) ∧
    ((¬ ∃ r, st.heap.Reaches v r ∧ st.heap.ContainsItself r) →
      ∃ copy g, Eval.detachKey v ⟨limit, none⟩ st = (.value copy, { st with heap := g }) ∧
        st.heap.Extends g ∧ (∀ r, g.Reaches copy r → st.heap.size ≤ r) ∧
        (st.heap.FiledWithin v → st.heap.Detached g v copy)) := by
  have hiff := Heap.exists_detach_eq_error_iff hh hv
  cases hd : st.heap.detach v with
  | error kind =>
    have hself := hiff.1 ⟨kind, hd⟩
    have hkey : Eval.detachKey v ⟨limit, none⟩ st = (.error (.selfContainingKey kind), st) := by
      simp only [Eval.detachKey, Eval.act, hd]
    exact ⟨iff_of_true ⟨_, hkey, rfl⟩ hself, fun hnot => absurd hself hnot⟩
  | ok p =>
    obtain ⟨copy, g⟩ := p
    have hnot : ¬ ∃ r, st.heap.Reaches v r ∧ st.heap.ContainsItself r := by
      rintro hself
      obtain ⟨kind, herror⟩ := hiff.2 hself
      rw [hd] at herror
      cases herror
    have hkey : Eval.detachKey v ⟨limit, none⟩ st = (.value copy, { st with heap := g }) := by
      simp only [Eval.detachKey, Eval.act, hd]
    refine ⟨iff_of_false ?_ hnot, fun _ => ⟨copy, g, hkey, ?_⟩⟩
    · rintro ⟨e, herror, -⟩
      rw [hkey] at herror
      cases herror
    have hclosed : st.heap.Holds (Value.In (· < st.heap.size)) (Value.In (· < st.heap.size)) :=
      hh.imp (fun _ hw _ hr => hw.lt_size hr) fun _ hw _ hr => hw.lt_size hr
    obtain ⟨hext, hsealed, hfresh⟩ := Heap.of_detach_sealed hclosed (fun _ hr => hv.lt_size hr) hd
    refine ⟨hext, fun r hr => (hsealed.closed.of_reaches hfresh hr).1, fun hfiled => ?_⟩
    -- the walk has ended, so the value has a depth
    obtain ⟨n, hsound⟩ := Heap.exists_sound hh hv hfiled (Heap.ends_of_detachFrom hh [] v hv hd)
    have hstart : st.heap.Sealed (st.heap.Fresh st.heap) := fun r hr =>
      absurd hr.2 (Nat.not_lt.2 hr.1)
    have hcopied := Heap.copiesTo_detachFrom hh [] hv hsound (.refl _) hstart hd
    refine hcopied.detached hh hsound ⟨fun r hr hself => hnot ⟨r, hr, hself⟩, by simp⟩

/-- A list that holds a map twice, and a tuple that is also a key and a value of the map. -/
def Heap.shared : Heap where
  cells := #[.tuple #[.atom "x"],
    .map ⟨3, [⟨.tuple 1, .tuple 0, .atom "a"⟩, ⟨.atom "k", .atom "k", .tuple 0⟩]⟩,
    .list #[.map 1, .tuple 0, .map 1]]

/-- The tables of the example are filed. -/
theorem Heap.filed_shared (r : Ref) : Heap.shared.Filed (Heap.shared.table r) := by
  match r with
  | 0 | 2 => exact Heap.filed_withRoom _ 0
  | 1 =>
    refine ⟨?_, ?_⟩
    · simp [Heap.shared, Heap.table, Heap.fingerprint, Heap.items]
    · simp [Heap.shared, Heap.table, Heap.equal, Heap.equalFrom_of_plain, Value.ref?,
        Heap.equalPlain]
  | r + 3 => exact Heap.filed_withRoom _ 0

/-- The example is sealed. -/
theorem Heap.sealed_shared : Heap.shared.Sealed (· < 3) := by
  intro r hr
  refine ⟨hr, Heap.filed_shared r, ?_⟩
  match r, hr with
  | 0, _ | 1, _ | 2, _ =>
    simp [Heap.contents, Heap.shared, Heap.items, Heap.table, Value.ref?, Table.empty,
      Table.withRoom]

/-- The example is well typed. -/
theorem Heap.wellTyped_shared : Heap.shared.WellTyped := by
  have htuple : Heap.shared.Fits (.tuple 0) := by
    rintro _ ⟨⟩
    exact ⟨_, rfl, rfl⟩
  have hmap : Heap.shared.Fits (.map 1) := by
    rintro _ ⟨⟩
    exact ⟨_, rfl, rfl⟩
  have hatom : ∀ name, Heap.shared.Fits (.atom name) := fun _ => nofun
  -- one case for each cell
  intro r c hc
  match r with
  | 0 =>
    cases hc
    exact Cell.holds_tuple (by simp [hatom])
  | 1 =>
    cases hc
    exact Cell.holds_map (by simp [Table.Holds, htuple, hatom])
  | 2 =>
    cases hc
    exact Cell.holds_list (by simp [htuple, hmap])
  | r + 3 => cases hc

/-- Cells that are come to in several ways are no cycle. -/
theorem Eval.detachKey_detached_shared :
    Heap.shared.WellTyped ∧ Heap.shared.Fits (.list 2) ∧ Heap.shared.FiledWithin (.list 2) ∧
      ∃ copy g, Eval.detachKey (.list 2) ⟨1, none⟩ ⟨Heap.shared, default, 0, 0, #[]⟩ =
        (.value copy, ⟨g, default, 0, 0, #[]⟩) ∧ Heap.shared.Detached g (.list 2) copy := by
  have hfits : Heap.shared.Fits (.list 2) := by
    rintro _ ⟨⟩
    exact ⟨_, rfl, rfl⟩
  have hfiled : Heap.shared.FiledWithin (.list 2) := fun r _ => Heap.filed_shared r
  have hin : (Value.list 2).In (· < 3) := by
    rintro _ ⟨⟩
    exact Nat.lt_succ_self 2
  -- nothing in the example leads back to itself
  have hacyclic : ¬ ∃ r, Heap.shared.Reaches (.list 2) r ∧ Heap.shared.ContainsItself r := by
    rintro ⟨r, hr, hself⟩
    exact Heap.sealed_shared.not_containsItself (Heap.sealed_shared.closed.of_reaches hin hr) hself
  obtain ⟨copy, g, hkey, -, -, hdetached⟩ := (Eval.detachKey_detached
    ⟨Heap.shared, default, 0, 0, #[]⟩ (.list 2) 1 Heap.wellTyped_shared hfits).2 hacyclic
  exact ⟨Heap.wellTyped_shared, hfits, hfiled, copy, g, hkey, hdetached hfiled⟩

/-- A map whose two keys are maps with a tuple for a key; the tuples have been emptied since these
were filed. -/
def Heap.stale : Heap where
  cells := #[.tuple #[], .tuple #[],
    .map ⟨3, [⟨.tuple 2, .tuple 0, .atom "a"⟩]⟩, .map ⟨3, [⟨.tuple 2, .tuple 1, .atom "a"⟩]⟩,
    .map ⟨3, [⟨.map 1, .map 2, .atom "b"⟩, ⟨.map 1, .map 3, .atom "c"⟩]⟩]

/-- That maps are filed cannot be dropped: these two keys are unequal, their copies are equal, and
an entry is lost. -/
theorem Heap.size_detach_stale :
    Heap.stale.equal (.map 2) (.map 3) = false ∧ Heap.stale.equal (.map 3) (.map 2) = false ∧
      ((Heap.stale.detach (.map 4)).toOption.map fun p => (p.1.ref?, (p.2.table 9).size)) =
        some (some 9, 1) := by
  refine ⟨by decide +kernel, by decide +kernel, by decide +kernel⟩

end AtomScript
