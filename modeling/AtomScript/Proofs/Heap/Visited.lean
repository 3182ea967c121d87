import AtomScript.Heap.Detach
import Mathlib.Data.List.Forall2
import Mathlib.Data.List.Nodup
import Mathlib.Data.List.Sort

/-!
# Going through a map

Whoever goes through a map meets each of its entries once, with its number (`Heap.visited_perm`),
and can put what has been made of them back into the order of the map (`Heap.inTurn_visited`).
Nothing more is known of the way: there is a hashing for every order in which the entries could be
met (`Heap.exists_visited_eq`).
-/

namespace AtomScript.Heap

/-- The heap with other places for the entries of its maps. -/
def rehash (h : Heap) (f : Hashing) : Heap := { h with hashing := f }

variable {α β : Type} {h : Heap} {r : Ref} {place : α → Nat}

/-! ### From place to place -/

theorem byPlace_eq_insertionSort (place : α → Nat) (as : List α) :
    byPlace place as = as.insertionSort fun a b => place a ≤ place b := by
  have hput : ∀ a bs, putInPlace place a bs =
      bs.orderedInsert (fun a b => place a ≤ place b) a := by
    intro a bs
    induction bs with
    | nil => rfl
    | cons b bs ih =>
      rw [putInPlace, ih]
      rfl
  -- the induction is on the list: each entry is put among those already in place
  induction as with
  | nil => rfl
  | cons a as ih =>
    rw [byPlace, hput, ih]
    rfl

theorem byPlace_perm (place : α → Nat) (as : List α) : (byPlace place as).Perm as := by
  rw [byPlace_eq_insertionSort]
  exact List.perm_insertionSort _ as

theorem byPlace_map {place' : β → Nat} {f : α → β} (hf : ∀ a, place' (f a) = place a)
    (as : List α) : byPlace place' (as.map f) = (byPlace place as).map f := by
  rw [byPlace_eq_insertionSort, byPlace_eq_insertionSort,
    List.map_insertionSort _ (fun a b => place' a ≤ place' b)]
  intro a _ b _
  rw [hf, hf]

/-- Two lists in step are still in step from place to place. -/
theorem forall₂_byPlace {place' : β → Nat} {R : α → β → Prop} {as : List α} {bs : List β}
    (hplace : ∀ a b, R a b → place a = place' b) (hR : List.Forall₂ R as bs) :
    List.Forall₂ R (byPlace place as) (byPlace place' bs) := by
  -- where an element is put depends on its place only
  have hput : ∀ a b, R a b → ∀ {as bs}, List.Forall₂ R as bs →
      List.Forall₂ R (putInPlace place a as) (putInPlace place' b bs) := by
    intro a b hab as bs hR
    induction hR with
    | nil => exact .cons hab .nil
    | @cons c d _ _ hcd hR ih =>
      rw [putInPlace, putInPlace, hplace a b hab, hplace c d hcd]
      split
      · exact .cons hab (.cons hcd hR)
      · exact .cons hcd ih
  induction hR with
  | nil => exact .nil
  | cons hab _ ih => exact hput _ _ hab ih

/-- Where the places are different, there is one way from place to place. -/
theorem byPlace_eq_of_perm {as bs : List α} (hperm : as.Perm bs)
    (hbs : bs.Pairwise fun a b => place a < place b) : byPlace place as = bs := by
  have hnodup : (bs.map place).Nodup := (List.pairwise_map.2 hbs).imp Nat.ne_of_lt
  have hsorted : (byPlace place as).Pairwise fun a b => place a ≤ place b := by
    have h : (as.insertionSort fun a b => place a ≤ place b).Pairwise _ :=
      List.pairwise_insertionSort (Order.Preimage place (· ≤ ·)) as
    rw [byPlace_eq_insertionSort]
    exact h
  have hperm' := (byPlace_perm place as).trans hperm
  -- two sorted lists of the same entries are one list, as places do not repeat
  refine List.Perm.eq_of_pairwise (fun a b ha hb hab hba => ?_) hsorted
    (hbs.imp Nat.le_of_lt) hperm'
  exact List.inj_on_of_nodup_map hnodup (hperm'.mem_iff.1 ha) hb (Nat.le_antisymm hab hba)

theorem mem_inTurn {as : List (α × Nat)} {a : α} : a ∈ inTurn as ↔ ∃ k, (a, k) ∈ as := by
  simp [inTurn, (byPlace_perm Prod.snd as).mem_iff]

theorem inTurn_map (f : α → β) (as : List (α × Nat)) :
    inTurn (as.map (Prod.map f id)) = (inTurn as).map f := by
  unfold inTurn
  rw [byPlace_map (f := Prod.map f id) fun _ => rfl, List.map_map, List.map_map]
  rfl

/-- **Members in whatever order** go back to their places. -/
theorem inTurn_of_perm {as : List α} {bs : List (α × Nat)} (hbs : bs.Perm as.zipIdx) :
    inTurn bs = as := by
  have hnumbers : as.zipIdx.Pairwise fun a b => a.2 < b.2 := by
    have h := List.pairwise_lt_range' (s := 0) (n := as.length)
    rwa [← List.zipIdx_map_snd, List.pairwise_map] at h
  unfold inTurn
  rw [byPlace_eq_of_perm hbs hnumbers, List.zipIdx_map_fst]

/-! ### The entries that are met -/

theorem visited_perm (h : Heap) (r : Ref) : (h.visited r).Perm (h.table r).entries.zipIdx :=
  byPlace_perm _ _

theorem mem_entries_of_visited {e : Entry × Nat} (he : e ∈ h.visited r) :
    e.1 ∈ (h.table r).entries :=
  List.fst_mem_of_mem_zipIdx ((h.visited_perm r).mem_iff.1 he)

/-- Each entry is met. -/
theorem exists_mem_visited {e : Entry} (he : e ∈ (h.table r).entries) :
    ∃ k, (e, k) ∈ h.visited r := by
  obtain ⟨k, hk⟩ := List.mem_iff_getElem?.1 he
  exact ⟨k, (h.visited_perm r).mem_iff.2 (List.mk_mem_zipIdx_iff_getElem?.2 hk)⟩

theorem inTurn_visited (h : Heap) (r : Ref) : inTurn (h.visited r) = (h.table r).entries :=
  inTurn_of_perm (h.visited_perm r)

/-- **Every order is the order of some hashing.** -/
theorem exists_visited_eq (h : Heap) (r : Ref) {es : List (Entry × Nat)}
    (hes : es.Perm (h.table r).entries.zipIdx) : ∃ f, (h.rehash f).visited r = es := by
  have hnodup : (es.map Prod.snd).Nodup := by
    rw [(hes.map Prod.snd).nodup_iff, List.zipIdx_map_snd]
    exact List.nodup_range'
  -- an entry is given the place at which its number stands in the list
  refine ⟨fun _ k => (es.map Prod.snd).idxOf k, byPlace_eq_of_perm hes.symm ?_⟩
  rw [List.pairwise_iff_getElem]
  intro i j hi hj hij
  have hplace : ∀ (i : Nat) (hi : i < es.length), (es.map Prod.snd).idxOf es[i].2 = i := by
    intro i hi
    have h := hnodup.idxOf_getElem i (by simpa using hi)
    rwa [List.getElem_map] at h
  change (es.map Prod.snd).idxOf es[i].2 < (es.map Prod.snd).idxOf es[j].2
  rwa [hplace i hi, hplace j hj]

end AtomScript.Heap
