import AtomScript.Proofs.Heap.Unfolding

/-!
# Looking up keys

In a table that is filed, with keys that do not contain themselves, looking up a key is looking for
an equal one, and adding, changing and removing entries does to later look-ups what it should
(`Heap.find?_insert`, `Heap.find?_replace`, `Heap.find?_erase`).

The key that is looked up may contain itself.  Then it is equal to no key of the table: what is
equal to a sound value is sound itself, as long as its maps are filed (`Heap.Tidy.sound_of_equal`).

The key that an entry is filed under is a copy of the one given (`Heap.StandsFor`), and the table is
changed while keys may lie about that hold the very map whose table it is.  What does not reach the
map compares as before the change; the keys of the map are among this, since a key that reached its
map would contain itself (`Heap.Orderly.not_reaches`).
-/

namespace AtomScript.Heap

variable {h g : Heap} {K : Ref → Prop} {t : Table} {e : Entry} {es : List Entry}
  {k copy key p v w : Value} {r s m : Ref} {n : Nat}

/-! ### What is equal to a sound value -/

/-- Each part of one of two aggregates with equal contents has an equal in the other. -/
theorem exists_of_sameContents (hsame : h.sameContents h.equal r s = true)
    (hv : v ∈ h.contents r) : ∃ w ∈ h.contents s, h.equal v w = true := by
  unfold sameContents at hsame
  rw [Bool.and_eq_true, allPairs_iff_forall₂] at hsame
  obtain ⟨hitems, htables⟩ := hsame
  -- an element stands against one at its place, a key or a value against one of an equal entry
  rcases List.mem_append.1 hv with hv | hv
  · obtain ⟨w, hw, hvw⟩ := exists_of_forall₂ hitems hv
    exact ⟨w, mem_contents_items hw, hvw⟩
  · obtain ⟨e, he, hv⟩ := List.mem_flatMap.1 hv
    obtain ⟨f, hf, hkey, hvalue⟩ := exists_of_sameTables htables he
    rcases List.mem_cons.1 hv with rfl | hv
    · exact ⟨f.key, mem_contents_key hf, hkey⟩
    · rw [List.mem_singleton.1 hv]
      exact ⟨f.value, mem_contents_value hf, hvalue⟩

/-- The cells of the region refer only to cells of the region, and its maps are filed. -/
structure Tidy (h : Heap) (K : Ref → Prop) : Prop where
  closed : h.Closed K
  lt_size : ∀ r, K r → r < h.size
  filed : ∀ r, K r → h.Filed (h.table r)

/-- A tidy part of a heap is tidy in every heap that agrees on it. -/
theorem Tidy.agree (hK : h.Tidy K) (hg : h.Agree g K) : g.Tidy K where
  closed := hK.closed.agree hg
  lt_size r hr := (hg.lt_size_iff hr).2 (hK.lt_size r hr)
  filed r hr := by
    rw [hg.table_eq hr]
    exact (hK.filed r hr).agree hg hK.closed fun e he => hK.closed hr (mem_contents_key he)

/-- **What is equal to a sound value is sound**, by induction on the depth. -/
theorem Tidy.sound_of_equal (hK : h.Tidy K) (hp : p.In K) (hw : h.Sound n w)
    (heq : h.equal p w = true) : h.Sound n p := by
  intro r hr
  obtain ⟨s, hs⟩ := exists_ref_of_fingerprint (fingerprint_eq_of_equal heq) hr
  -- on the depth to which the other value is sound
  induction n generalizing p w r s with
  | zero => cases hw s hs
  | succ n ih =>
    obtain ⟨hkind, rfl | hsame⟩ :=
      (equal_iff_of_settles ((hw s hs).settles_right r) hr hs).1 heq
    · exact hw r hs
    · have hKr := hp r hr
      refine ⟨hK.lt_size r hKr, hK.filed r hKr, fun v hv q hq => ?_⟩
      obtain ⟨x, hx, hvx⟩ := exists_of_sameContents hsame hv
      obtain ⟨q', hq'⟩ := exists_ref_of_fingerprint (fingerprint_eq_of_equal hvx) hq
      exact ih (hK.closed hKr hv) ((hw s hs).contents hx) hvx q hq q' hq'

/-- Equal values are equal to the same. -/
theorem Tidy.equal_congr (hK : h.Tidy K) (hp : p.In K) (hv : h.Sound n v) (hw : h.Sound n w)
    (hvw : h.equal v w = true) : h.equal p v = h.equal p w := by
  rw [Bool.eq_iff_iff]
  constructor
  · intro hpv
    exact equal_trans (hK.sound_of_equal hp hv hpv) hv hw hpv hvw
  · intro hpw
    exact equal_trans (hK.sound_of_equal hp hw hpw) hw hv hpw (equal_symm hv hw hvw)

/-- Every way from a sound cell comes to an end. -/
theorem SoundCell.ends (hr : h.SoundCell n r) : h.Ends r := by
  induction n generalizing r with
  | zero => cases hr
  | succ n ih => exact ⟨r, fun s ⟨v, hv, hs⟩ => ih (hr.contents hv s hs)⟩

/-- Nothing in a sound value contains itself. -/
theorem Sound.acyclic (hv : h.Sound n v) (hr : h.Reaches v r) : ¬ h.ContainsItself r :=
  (Ends.of_reaches (fun s hs => (hv s hs).ends) hr).not_containsItself

/-! ### Look-ups in a filed table -/

/-- A key is in a table when a value is found for it. -/
theorem contains_eq_isSome : h.contains t p = (h.find? t p).isSome := by
  unfold contains find?
  rw [Option.isSome_map, List.isSome_find?]

/-- At most one entry answers to a key. -/
theorem Filed.eq_of_answers (ht : h.Filed t) (hK : h.Tidy K)
    (hkeys : ∀ e ∈ t.entries, h.Sound n e.key) (hp : p.In K) {f : Entry} (he : e ∈ t.entries)
    (hf : f ∈ t.entries) (hpe : h.answers p e = true) (hpf : h.answers p f = true) : e = f := by
  rw [ht.answers_eq he] at hpe
  rw [ht.answers_eq hf] at hpf
  have hsound := hK.sound_of_equal hp (hkeys e he) hpe
  exact ht.eq_of_equal he hf (h.euclidean n _ _ _ hsound (hkeys e he) (hkeys f hf) hpe hpf)
    (h.euclidean n _ _ _ hsound (hkeys f hf) (hkeys e he) hpf hpe)

/-- The entries tell the two keys apart exactly if these are unequal. -/
structure Tells (h : Heap) (es : List Entry) (key p : Value) : Prop where
  same : h.equal p key = true → ∀ e ∈ es, h.answers p e = h.answers key e
  apart : h.equal p key = false → ∀ e ∈ es, h.answers key e = true → h.answers p e = false

/-- In a filed table, the entries tell which keys equal a probe. -/
theorem Filed.tells (ht : h.Filed t) (hK : h.Tidy K) (hkeys : ∀ e ∈ t.entries, h.Sound n e.key)
    (hkey : h.Sound n key) (hp : p.In K) : h.Tells t.entries key p where
  same hpk e he := by
    have hsound := hK.sound_of_equal hp hkey hpk
    rw [ht.answers_eq he, ht.answers_eq he, Bool.eq_iff_iff]
    exact ⟨h.euclidean n _ _ _ hsound hkey (hkeys e he) hpk,
      equal_trans hsound hkey (hkeys e he) hpk⟩
  apart hpk e he hkey' := by
    rw [ht.answers_eq he] at hkey' ⊢
    refine Bool.eq_false_iff.2 fun hpe => ?_
    have hsound := hK.sound_of_equal hp (hkeys e he) hpe
    rw [equal_trans hsound (hkeys e he) hkey hpe (equal_symm hkey (hkeys e he) hkey')] at hpk
    cases hpk

/-- What a row of entries tells, its later entries tell. -/
theorem Tells.tail (htell : h.Tells (e :: es) key p) : h.Tells es key p where
  same hpk f hf := htell.same hpk f (List.mem_cons_of_mem e hf)
  apart hpk f hf := htell.apart hpk f (List.mem_cons_of_mem e hf)

/-- After a replacement, the key finds the new value and every other key what it found before. -/
theorem find?_replaceIn (htell : h.Tells es key p) (hin : es.any (h.answers key) = true) :
    ((h.replaceIn key v es).find? (h.answers p)).map (·.value) =
      if h.equal p key then some v else (es.find? (h.answers p)).map (·.value) := by
  induction es with
  | nil => cases hin
  | cons e es ih =>
    have hsame : ∀ x, h.answers p { e with value := x } = h.answers p e := fun _ => rfl
    unfold replaceIn
    cases hke : h.answers key e with
    | true =>
      rw [if_pos rfl, List.find?_cons, List.find?_cons, hsame]
      cases hpk : h.equal p key with
      | true => rw [htell.same hpk e List.mem_cons_self, hke]; rfl
      | false => rw [htell.apart hpk e List.mem_cons_self hke]; rfl
    | false =>
      rw [List.any_cons, hke, Bool.false_or] at hin
      rw [if_neg Bool.false_ne_true, List.find?_cons, List.find?_cons]
      cases hpe : h.answers p e with
      | false => exact ih htell.tail hin
      | true =>
        -- the entry answers to the one and not to the other, so they are unequal
        have hpk : h.equal p key = false := by
          refine Bool.eq_false_iff.2 fun hpk => ?_
          rw [htell.same hpk e List.mem_cons_self, hke] at hpe
          cases hpe
        rw [hpk]
        rfl

/-- Changing the value of a key changes what is found under it, and nothing else. -/
theorem find?_replace (htell : h.Tells t.entries key p) (hin : h.contains t key = true) :
    h.find? (h.replace t key v) p = if h.equal p key then some v else h.find? t p :=
  find?_replaceIn htell hin

/-- Making room leaves the entries of a filed table. -/
theorem Filed.entries_makeRoom (ht : h.Filed t) : (h.makeRoom t).entries = t.entries := by
  unfold Heap.makeRoom
  split
  · rfl
  · refine (List.map_congr_left fun e he => ?_).trans (List.map_id _)
    rw [← ht.filed e he]
    rfl

/-- Making room leaves which keys are in a filed table. -/
theorem Filed.contains_makeRoom (ht : h.Filed t) :
    h.contains (h.makeRoom t) key = h.contains t key := by
  unfold contains
  rw [ht.entries_makeRoom]

/-- A key that is given a value is found with this value. -/
theorem find?_insert (ht : h.Filed t) (htell : h.Tells t.entries key p) :
    h.find? (h.insert t key v) p = if h.equal p key then some v else h.find? t p := by
  have hfind : h.find? (h.makeRoom t) p = h.find? t p := by
    unfold find?
    rw [ht.entries_makeRoom]
  have hroom : h.Tells (h.makeRoom t).entries key p := by rwa [ht.entries_makeRoom]
  unfold insert
  dsimp only
  split
  · next hin => rw [find?_replace hroom hin, hfind]
  · next hnone =>
    rw [Bool.not_eq_true] at hnone
    unfold find? at hfind ⊢
    rw [List.find?_append, List.find?_singleton]
    have hnew : h.answers p ⟨h.fingerprint key, key, v⟩ = h.equal p key := answers_of_filed rfl
    rw [hnew]
    cases hpk : h.equal p key with
    | true =>
      -- no entry answers to the key, so none answers to an equal one
      have hnone' : (h.makeRoom t).entries.find? (h.answers p) = none := by
        refine List.find?_eq_none.2 fun e he => ?_
        rw [hroom.same hpk e he]
        exact List.any_eq_false.1 hnone e he
      rw [hnone']
      rfl
    | false =>
      rw [if_neg Bool.false_ne_true, if_neg Bool.false_ne_true, Option.or_none]
      exact hfind

/-- After an erasure, the key finds nothing and every other key what it found before. -/
theorem find?_eraseP (htell : h.Tells es key p)
    (halone : es.Pairwise fun e f => h.answers key e = true → h.answers key f = false) :
    (es.eraseP (h.answers key)).find? (h.answers p) =
      if h.equal p key then none else es.find? (h.answers p) := by
  induction es with
  | nil => cases h.equal p key <;> rfl
  | cons e es ih =>
    obtain ⟨hfirst, hrest⟩ := List.pairwise_cons.1 halone
    cases hke : h.answers key e with
    | true =>
      rw [List.eraseP_cons_of_pos hke]
      -- the first entry with the key goes, and no later one has the key
      cases hpk : h.equal p key with
      | true =>
        refine List.find?_eq_none.2 fun f hf => ?_
        rw [htell.same hpk f (List.mem_cons_of_mem e hf), hfirst f hf hke]
        exact Bool.false_ne_true
      | false =>
        rw [List.find?_cons, htell.apart hpk e List.mem_cons_self hke]
        rfl
    | false =>
      rw [List.eraseP_cons_of_neg (Bool.eq_false_iff.1 hke), List.find?_cons,
        ih htell.tail hrest, List.find?_cons]
      cases hpk : h.equal p key with
      | true => rw [htell.same hpk e List.mem_cons_self, hke]
      | false => rfl

/-- A key that is removed is not found any more. -/
theorem find?_erase (htell : h.Tells t.entries key p)
    (halone : t.entries.Pairwise fun e f => h.answers key e = true → h.answers key f = false) :
    h.find? (h.erase t key) p = if h.equal p key then none else h.find? t p := by
  unfold find? erase
  rw [find?_eraseP htell halone]
  split <;> rfl

/-- No two entries answer to a sound key. -/
theorem Filed.pairwise_answers (ht : h.Filed t) (hkeys : ∀ e ∈ t.entries, h.Sound n e.key)
    (hkey : h.Sound n key) :
    t.entries.Pairwise fun e f => h.answers key e = true → h.answers key f = false := by
  refine List.Pairwise.imp_of_mem (fun {e f} he hf hne hke => ?_) ht.distinct
  rw [ht.answers_eq he] at hke
  rw [ht.answers_eq hf]
  -- two entries that answer to one key would be equal to each other, and stored keys are distinct
  refine Bool.eq_false_iff.2 fun hkf => ?_
  rw [h.euclidean n _ _ _ hkey (hkeys f hf) (hkeys e he) hkf hke] at hne
  cases hne

/-! ### Sizes -/

/-- A replacement leaves the number of entries. -/
theorem size_replace (h : Heap) (t : Table) (key value : Value) :
    (h.replace t key value).size = t.size := by
  have hlen := congrArg List.length (h.keys_replace t key value)
  rwa [List.length_map, List.length_map] at hlen

/-- An insertion adds one entry, unless the key was there. -/
theorem size_insert (ht : h.Filed t) :
    (h.insert t key v).size = if h.contains t key then t.size else t.size + 1 := by
  -- growing refiles the entries and neither adds nor drops one
  have hroom : (h.makeRoom t).size = t.size := congrArg List.length ht.entries_makeRoom
  unfold insert
  dsimp only
  rw [ht.contains_makeRoom]
  split
  · rw [size_replace, hroom]
  · rw [Table.size, List.length_append, List.length_singleton]
    exact congrArg (· + 1) hroom

/-- An erasure of a key that is there takes one entry away. -/
theorem size_erase (hin : h.contains t key = true) : (h.erase t key).size = t.size - 1 := by
  obtain ⟨e, he, hke⟩ := List.any_eq_true.1 hin
  exact List.length_eraseP_of_mem he hke

/-! ### Orderly heaps -/

/-- The value that a map holds under a key. -/
def lookup (h : Heap) (m : Ref) (p : Value) : Option Value := h.find? (h.table m) p

/-- A value that fits reaches into the heap only. -/
theorem Fits.in_size (hv : h.Fits v) : v.In (· < h.size) := fun _ hr => hv.lt_size hr

/-- Every map is filed, and none of its keys contains itself. -/
structure Orderly (h : Heap) : Prop where
  typed : h.WellTyped
  filed : ∀ r, h.Filed (h.table r)
  keys : ∀ r, ∀ e ∈ (h.table r).entries, ∀ s, h.Reaches e.key s → ¬ h.ContainsItself s

/-- A heap whose cells refer to earlier cells only, and whose maps are filed, is orderly. -/
theorem Sealed.orderly (hK : h.Sealed (· < h.size)) (hh : h.WellTyped) : h.Orderly where
  typed := hh
  filed r := by
    by_cases hr : r < h.size
    · exact (hK r hr).2.1
    · rw [h.table_of_none (Array.getElem?_eq_none (Nat.not_lt.1 hr))]
      exact filed_withRoom h 0
  keys r e he s hs := by
    have hkey := (hh.contents (mem_contents_key he)).in_size
    -- a key is sealed, so it was complete when it was stored and reaches no cell that holds itself
    exact hK.not_containsItself (hK.closed.of_reaches hkey hs)

namespace Orderly

variable (hh : h.Orderly)

include hh

/-- In an orderly heap everything is tidy. -/
theorem tidy : h.Tidy (· < h.size) := ⟨hh.typed.closed, fun _ hr => hr, fun r _ => hh.filed r⟩

/-- The keys of an orderly heap fit it. -/
theorem fits_key (he : e ∈ (h.table r).entries) : h.Fits e.key :=
  hh.typed.contents (mem_contents_key he)

/-- The keys of a map are sound to one depth. -/
theorem exists_sound_keys (r : Ref) : ∃ n, ∀ e ∈ (h.table r).entries, h.Sound n e.key := by
  have hkeys : ∀ v ∈ (h.table r).entries.map (·.key), h.Regular v := by
    intro v hv
    obtain ⟨e, he, rfl⟩ := List.mem_map.1 hv
    exact ⟨hh.fits_key he, hh.keys r e he, fun s _ => hh.filed s⟩
  obtain ⟨n, hn⟩ := exists_sound_of_regular hh.typed hkeys
  exact ⟨n, fun e he => hn e.key (List.mem_map_of_mem he)⟩

/-- A key does not reach its map, for it would contain itself. -/
theorem not_reaches (he : e ∈ (h.table m).entries) : ¬ h.Reaches e.key m := fun hreach =>
  hh.keys m e he m hreach (hreach.containsItself (mem_contents_key he))

/-- A key that is found can be detached. -/
theorem exists_sound_of_lookup {x : Value} (hk : h.Fits k) (hfind : h.lookup m k = some x) :
    ∃ n, h.Sound n k := by
  obtain ⟨n, hn⟩ := hh.exists_sound_keys m
  obtain ⟨e, he, -⟩ := Option.map_eq_some_iff.1 hfind
  have hmem := List.mem_of_find?_eq_some he
  have hanswers := List.find?_some he
  rw [(hh.filed m).answers_eq hmem] at hanswers
  exact ⟨n, hh.tidy.sound_of_equal hk.in_size (hn e hmem) hanswers⟩

/-- **Comparing with a stored key comes to an end**, whatever the key that is looked up. -/
theorem compares_key (he : e ∈ (h.table m).entries) :
    h.Compares true k e.key (h.equal k e.key) := by
  obtain ⟨n, hn⟩ := hh.exists_sound_keys m
  exact compares_equal (fun q r _ hr => (hn e he r hr).settles_right q) nofun

end Orderly

/-- The answer to a key: the value of the only entry with an equal key. -/
def Stores (h : Heap) (m : Ref) (k : Value) : Option Value → Prop
  | some x => ∃ e ∈ (h.table m).entries, h.equal k e.key = true ∧ e.value = x ∧
      ∀ f ∈ (h.table m).entries, h.equal k f.key = true → f = e
  | none => ∀ e ∈ (h.table m).entries, h.equal k e.key = false

/-- What looking a key up finds is what the table stores under it. -/
theorem Orderly.stores_lookup (hh : h.Orderly) (hk : h.Fits k) :
    h.Stores m k (h.lookup m k) := by
  have hm := hh.filed m
  cases hfind : h.lookup m k with
  -- nothing found means that no entry answers; otherwise the one that does is the only one
  | none =>
    intro e he
    have hanswers := List.find?_eq_none.1 (Option.map_eq_none_iff.1 hfind) e he
    rwa [hm.answers_eq he, Bool.not_eq_true] at hanswers
  | some x =>
    obtain ⟨n, hn⟩ := hh.exists_sound_keys m
    obtain ⟨e, he, hvalue⟩ := Option.map_eq_some_iff.1 hfind
    have hmem := List.mem_of_find?_eq_some he
    have hanswers := List.find?_some he
    refine ⟨e, hmem, (hm.answers_eq hmem).symm.trans hanswers, hvalue, fun f hf hkf => ?_⟩
    exact hm.eq_of_answers hh.tidy hn hk.in_size hf hmem ((hm.answers_eq hf).trans hkf) hanswers

/-! ### Detached keys -/

/-- The value `copy`, in new cells of the larger heap, serves as a key in the place of `k`. -/
structure StandsFor (h g : Heap) (k copy : Value) : Prop where
  fits : h.Fits k
  sound : ∃ n, h.Sound n k
  keeps : h.Extends g
  sealed : g.Sealed (h.Fresh g)
  fresh : copy.In (h.Fresh g)
  equal : g.equal k copy = true

/-- The detached copy of a key stands for it. -/
theorem Orderly.standsFor (hh : h.Orderly) (hk : h.Fits k) (hd : h.detach k = .ok (copy, g)) :
    h.StandsFor g k copy := by
  obtain ⟨n, hn⟩ := exists_sound hh.typed hk (fun r _ => hh.filed r)
    (ends_of_detachFrom hh.typed [] k hk hd)
  -- at the start nothing is copied, so there is no fresh cell that could be open
  have hstart : h.Sealed (h.Fresh h) := fun r hr => absurd hr.2 (Nat.not_lt.2 hr.1)
  have hcopied := copiesTo_detachFrom hh.typed [] hk hn (.refl h) hstart hd
  have hfresh := hcopied.fresh copy List.mem_cons_self
  have htwin : h.Twin g k copy := by
    cases hcopied.twins with
    | cons ht _ => exact ht
  obtain ⟨-, -, hequal⟩ := htwin.equal_copy hh.typed hcopied.keeps hcopied.sealed hn hfresh
  exact ⟨hk, ⟨n, hn⟩, hcopied.keeps, hcopied.sealed, hfresh, hequal⟩

/-- Two heaps that agree on a table and a probe find the same value. -/
theorem Agree.find?_eq (hg : h.Agree g K) (hclosed : h.Closed K) (hp : p.In K)
    (hkeys : ∀ e ∈ t.entries, e.key.In K) : g.find? t p = h.find? t p := by
  unfold find?
  refine congrArg _ (List.find?_congr fun e he => ?_)
  unfold answers
  rw [hg.fingerprint_eq hp, hg.equal_eq hclosed hp (hkeys e he)]

namespace StandsFor

variable (hs : h.StandsFor g k copy)

include hs

/-- A heap with a copy agrees with the old one on all that was there. -/
theorem agree : h.Agree g (· < h.size) := hs.keeps.agree fun _ hr => hr

variable (hh : h.Orderly)

include hh

/-- In the larger heap, what was there compares with the copy as it did with the value. -/
theorem equal_eq (hp : h.Fits p) : g.equal p copy = h.equal p k := by
  obtain ⟨n, hk⟩ := hs.sound
  have htidy := hh.tidy.agree hs.agree
  have hk' := (hk.agree hs.agree hh.typed.closed hk.lt_size).mono (Nat.le_max_left n g.size)
  have hcopy := (hs.sealed.sound hs.fresh).mono (Nat.le_max_right n g.size)
  rw [← htidy.equal_congr hp.in_size hk' hcopy hs.equal,
    hs.agree.equal_eq hh.typed.closed hp.in_size hk.lt_size]

/-- The tables stay filed when a key has been copied. -/
theorem filed (m : Ref) : g.Filed (h.table m) :=
  (hh.filed m).agree hs.agree hh.typed.closed fun _ he => (hh.fits_key he).in_size

/-- The copy and the keys of a map are sound to one depth. -/
theorem exists_sound_keys (m : Ref) :
    ∃ n, g.Sound n copy ∧ ∀ e ∈ (h.table m).entries, g.Sound n e.key := by
  obtain ⟨n, hn⟩ := hh.exists_sound_keys m
  refine ⟨max n g.size, (hs.sealed.sound hs.fresh).mono (Nat.le_max_right _ _), fun e he => ?_⟩
  have hsound := (hn e he).agree hs.agree hh.typed.closed (hh.fits_key he).in_size
  exact hsound.mono (Nat.le_max_left _ _)

/-- The entries tell of the copy what they told of the key. -/
theorem tells (hp : h.Fits p) : g.Tells (h.table m).entries copy p := by
  obtain ⟨n, hcopy, hkeys⟩ := hs.exists_sound_keys hh m
  exact (hs.filed hh m).tells (hh.tidy.agree hs.agree) hkeys hcopy hp.in_size

/-- A key finds the same value when another has been copied. -/
theorem find?_eq (hp : h.Fits p) : g.find? (h.table m) p = h.lookup m p :=
  hs.agree.find?_eq hh.typed.closed hp.in_size fun _ he => (hh.fits_key he).in_size

/-- The copy is there exactly if the value was. -/
theorem contains_eq : g.contains (h.table m) copy = (h.lookup m k).isSome := by
  have hfind : g.find? (h.table m) k = g.find? (h.table m) copy := by
    unfold find?
    rw [List.find?_congr ((hs.tells hh hs.fits).same hs.equal)]
  rw [contains_eq_isSome, ← hfind, hs.find?_eq hh hs.fits]

end StandsFor

/-! ### Changing the table of a map -/

/-- The cell is not on a way to the map. -/
def Away (h : Heap) (m r : Ref) : Prop := ¬ Relation.ReflTransGen h.PointsTo r m

/-- A value is away from a map when no way leads from it there. -/
theorem in_away_iff : v.In (h.Away m) ↔ ¬ h.Reaches v m :=
  ⟨fun hv ⟨r, hr, hway⟩ => hv r hr hway, fun hv r hr hway => hv ⟨r, hr, hway⟩⟩

/-- What is away from a map holds only what is away from it. -/
theorem closed_away (h : Heap) (m : Ref) : h.Closed (h.Away m) :=
  fun _ hr _ hv _ hs hway => hr (.head ⟨_, hv, hs⟩ hway)

/-- **A change of the map is not noticed by what does not reach it.** -/
theorem agree_editTable (h : Heap) (m : Ref) (f : Table → Table) :
    h.Agree (h.editTable m f) (h.Away m) := by
  intro r hr
  have hne : m ≠ r := by
    rintro rfl
    exact hr .refl
  rw [cell_editTable, if_neg hne]

/-- The table of a map after it is edited. -/
theorem Fits.table_editTable (hm : h.Fits (.map m)) (f : Table → Table) :
    (h.editTable m f).table m = f (h.table m) := by
  obtain ⟨c, hc, hkind⟩ := hm m rfl
  have hc' : (h.editTable m f).cells[m]? = some (c.mapTable f) := by
    rw [cell_editTable, if_pos rfl, hc]
    -- a fitting `m` is a map; the other kinds of cell are excluded by its kind
    rfl
  rw [table_of_cell _ hc, table_of_cell _ hc']
  cases c with
  | map t => rfl
  | _ => cases hkind

/-- A value that fits goes on to fit after an edit of a table. -/
theorem Fits.editTable (hv : h.Fits v) (f : Table → Table) : (h.editTable m f).Fits v := by
  intro r hr
  obtain ⟨c, hc, hkind⟩ := hv r hr
  rw [cell_editTable, hc]
  split
  · refine ⟨_, rfl, ?_⟩
    cases c <;> exact hkind
  · exact ⟨c, rfl, hkind⟩

/-- A value that fits goes on to fit when cells are added. -/
theorem Fits.extends (hv : h.Fits v) (hg : h.Extends g) : g.Fits v := by
  intro r hr
  obtain ⟨c, hc, hkind⟩ := hv r hr
  exact ⟨c, hg r c hc, hkind⟩

/-- An old value reaches in the larger heap what it reached before. -/
theorem Extends.reaches (hg : h.Extends g) (hh : h.WellTyped) (hv : v.In (· < h.size))
    (hr : g.Reaches v r) : h.Reaches v r := by
  obtain ⟨s, hs, hway⟩ := hr
  refine ⟨s, hs, ?_⟩
  have hlt : ∀ q, Relation.ReflTransGen h.PointsTo s q → q < h.size := fun q hq =>
    hh.closed.of_reaches hv ⟨s, hs, hq⟩
  -- going back along the way: each cell on it is among the old ones, which the extension leaves
  -- alone
  induction hway with
  | refl => exact .refl
  | @tail q r _ hp ih =>
    obtain ⟨x, hx, hr⟩ := hp
    rw [contents_congr (hg.cell_eq (hlt q ih))] at hx
    exact ih.tail ⟨x, hx, hr⟩

/-- What has become of a heap in which nothing has changed but one map: what is found there under
the keys from which the map is not reached, and how many entries it has.  Its keys are in order. -/
structure Updated (h g : Heap) (m : Ref) (found : Value → Option Value) (size : Nat) : Prop where
  others : ∀ r < h.size, r ≠ m → g.cells[r]? = h.cells[r]?
  fits : g.Fits (.map m)
  found : ∀ p, h.Fits p → ¬ h.Reaches p m → g.lookup m p = found p
  size : (g.table m).size = size
  filed : g.Filed (g.table m)
  acyclic : ∀ e ∈ (g.table m).entries, ∀ r, g.Reaches e.key r → ¬ g.ContainsItself r

/-- **Changing a map under a detached key.**  What is found after the change is what is found in the
new table while the map is as before, because nothing that is compared reaches it. -/
theorem StandsFor.updated {f : Table → Table} {found : Value → Option Value} {size : Nat}
    (hs : h.StandsFor g k copy) (hh : h.Orderly) (hm : h.Fits (.map m))
    (hfiled : g.Filed (f (h.table m)))
    (hkeys : (f (h.table m)).Holds (fun _ => True)
      fun x => x = copy ∨ ∃ e ∈ (h.table m).entries, e.key = x)
    (hfound : ∀ p, h.Fits p → g.find? (f (h.table m)) p = found p)
    (hsize : (f (h.table m)).size = size) : h.Updated (g.editTable m f) m found size := by
  have hlt := hm.lt_size rfl
  have htable : (g.editTable m f).table m = f (h.table m) := by
    rw [(hm.extends hs.keeps).table_editTable, hs.agree.table_eq hlt]
  have hagree' := g.agree_editTable m f
  have hclosed := g.closed_away m
  have haway : ∀ v, h.Fits v → ¬ h.Reaches v m → v.In (g.Away m) := fun v hv hnot =>
    in_away_iff.2 fun hreach => hnot (hs.keeps.reaches hh.typed hv.in_size hreach)
  -- the keys do not reach the map: the old ones would contain themselves, the new one is apart
  have hkey : ∀ e ∈ (f (h.table m)).entries, e.key.In (g.Away m) ∧ ∃ n, g.Sound n e.key := by
    intro e he
    rcases (hkeys e he).1 with heq | ⟨e', he', heq⟩
    · rw [heq]
      refine ⟨in_away_iff.2 fun hreach => ?_, _, hs.sealed.sound hs.fresh⟩
      exact Nat.not_lt.2 (hs.sealed.closed.of_reaches hs.fresh hreach).1 hlt
    · rw [← heq]
      obtain ⟨n, hn⟩ := hh.exists_sound_keys m
      have hfits := hh.fits_key he'
      exact ⟨haway _ hfits (hh.not_reaches he'), n,
        (hn e' he').agree hs.agree hh.typed.closed hfits.in_size⟩
  refine ⟨fun r hr hne => ?_, (hm.extends hs.keeps).editTable f, fun p hp hnot => ?_, ?_, ?_, ?_⟩
  · rw [cell_editTable, if_neg (Ne.symm hne)]
    exact hs.agree r hr
  · rw [lookup, htable, hagree'.find?_eq hclosed (haway p hp hnot) fun e he => (hkey e he).1]
    exact hfound p hp
  · rw [htable, hsize]
  · rw [htable]
    exact hfiled.agree hagree' hclosed fun e he => (hkey e he).1
  · rw [htable]
    intro e he r hr
    obtain ⟨hin, n, hn⟩ := hkey e he
    exact (hn.agree hagree' hclosed hin).acyclic hr

/-! ### The three ways to change a map -/

namespace StandsFor

variable (hs : h.StandsFor g k copy) (hh : h.Orderly) (hm : h.Fits (.map m))

include hs hh hm

/-- Giving the key a value. -/
theorem updated_insert (v : Value) :
    h.Updated (g.editTable m fun t => g.insert t copy v) m
      (fun p => if h.equal p k then some v else h.lookup m p)
      (if (h.lookup m k).isSome then (h.table m).size else (h.table m).size + 1) := by
  refine hs.updated hh hm (hs.filed hh m).insert ?_ (fun p hp => ?_) ?_
  · exact g.holds_insert (fun e he => ⟨.inr ⟨e, he, rfl⟩, trivial⟩) (.inl rfl) trivial
  · rw [find?_insert (hs.filed hh m) (hs.tells hh hp), hs.equal_eq hh hp, hs.find?_eq hh hp]
  · rw [size_insert (hs.filed hh m), hs.contains_eq hh]

variable (hin : (h.lookup m k).isSome = true)

include hin

/-- Changing the value of a key that is there. -/
theorem updated_replace (v : Value) :
    h.Updated (g.editTable m fun t => g.replace t copy v) m
      (fun p => if h.equal p k then some v else h.lookup m p) (h.table m).size := by
  have hin' : g.contains (h.table m) copy = true := by rw [hs.contains_eq hh, hin]
  refine hs.updated hh hm (hs.filed hh m).replace ?_ (fun p hp => ?_) (size_replace ..)
  · exact g.holds_replace (fun e he => ⟨.inr ⟨e, he, rfl⟩, trivial⟩) trivial
  · rw [find?_replace (hs.tells hh hp) hin', hs.equal_eq hh hp, hs.find?_eq hh hp]

/-- Removing a key that is there. -/
theorem updated_erase :
    h.Updated (g.editTable m fun t => g.erase t copy) m
      (fun p => if h.equal p k then none else h.lookup m p)
      ((h.table m).size - 1) := by
  have hin' : g.contains (h.table m) copy = true := by rw [hs.contains_eq hh, hin]
  obtain ⟨n, hcopy, hkeys⟩ := hs.exists_sound_keys hh m
  refine hs.updated hh hm (hs.filed hh m).erase ?_ (fun p hp => ?_) (size_erase hin')
  · exact g.holds_erase fun e he => ⟨.inr ⟨e, he, rfl⟩, trivial⟩
  · rw [find?_erase (hs.tells hh hp) ((hs.filed hh m).pairwise_answers hkeys hcopy),
      hs.equal_eq hh hp, hs.find?_eq hh hp]

end StandsFor

end AtomScript.Heap
