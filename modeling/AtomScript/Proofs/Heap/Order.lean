import AtomScript.Heap.Order
import AtomScript.Proofs.Heap.Detached
import Mathlib.Order.Defs.LinearOrder

/-!
# Order and listings

The order of values compares their places, then a number that ranks a value in its place, then a
text (`Heap.order_eq`), so it is a total preorder.  Where no two keys of a map have the same rank,
there is one way to list its entries, and it does not depend on how they are enumerated
(`Heap.Reordered.sortedPairs_eq`).  The text of a value shows maps in this way, and does not depend
on it either (`Heap.Reordered.inspect_eq`).
-/

namespace AtomScript

/-- The text by which atoms and strings are ordered. -/
def Value.spelling : Value → String
  | .atom a => a
  | .string s => s
  | _ => ""

namespace Heap

variable {h g : Heap} {v w : Value} {r : Ref} {path : List Ref}

/-! ### A total preorder -/

/-- The number by which values of one place are ordered: numbers by their rank, aggregates by their
size. -/
def weight (h : Heap) : Value → Int
  | .number x => x.rank
  | .tuple r | .list r => (h.items r).size
  | .map r => (h.table r).size
  | _ => 0

theorem compare_natCast (a b : Nat) : compare (a : Int) (b : Int) = compare a b := by
  rcases Nat.lt_trichotomy a b with hlt | rfl | hlt
  · rw [Nat.compare_eq_lt.2 hlt, Int.compare_eq_lt.2 (Int.ofNat_lt.2 hlt)]
  · rw [Nat.compare_eq_eq.2 rfl, Int.compare_eq_eq.2 rfl]
  · rw [Nat.compare_eq_gt.2 hlt, Int.compare_eq_gt.2 (Int.ofNat_lt.2 hlt)]

/-- **The order is lexicographic.** -/
theorem order_eq (h : Heap) :
    h.order = compareLex (compareOn fun v => v.kind.rank)
      (compareLex (compareOn h.weight) (compareOn Value.spelling)) := by
  funext v w
  by_cases hplace : v.kind.rank = w.kind.rank
  · -- in one place either the weights or the spellings are compared
    cases v <;> cases w <;>
      simp_all [order, compareLex, compareOn, weight, Value.spelling, Value.kind, Kind.rank,
        Number.order, compare_natCast]
  -- values of different kinds are ordered by their kinds alone
  · rw [order_of_kind_ne (mt (congrArg Kind.rank) hplace)]
    unfold compareLex compareOn
    cases hcompare : compare v.kind.rank w.kind.rank with
    | eq => exact absurd (Nat.compare_eq_eq.1 hcompare) hplace
    | _ => rfl

instance transCmp_order (h : Heap) : Std.TransCmp h.order := by
  rw [order_eq]
  infer_instance

theorem isLE_order_total (h : Heap) (v w : Value) :
    ((h.order v w).isLE || (h.order w v).isLE) = true := by
  have hswap : h.order w v = (h.order v w).swap := Std.OrientedCmp.eq_swap
  rw [hswap]
  cases h.order v w <;> rfl

/-! ### Listings -/

/-- The entries of a map in the order of their keys. -/
def sortedPairs (h : Heap) (r : Ref) : List (Value × Value) :=
  (h.sortedEntries r).map fun e => (e.key, e.value)

theorem perm_sortedPairs (h : Heap) (r : Ref) : (h.sortedPairs r).Perm (h.table r).pairs :=
  (List.mergeSort_perm _ _).map _

theorem pairwise_isLE_sortedPairs (h : Heap) (r : Ref) :
    (h.sortedPairs r).Pairwise fun p q => (h.order p.1 q.1).isLE = true := by
  refine List.pairwise_map.2 (List.pairwise_mergeSort ?_ ?_ _)
  · exact fun _ _ _ hab hbc => Std.TransCmp.isLE_trans hab hbc
  · exact fun _ _ => isLE_order_total h _ _

/-- No two keys have the same rank. -/
def Ranked (h : Heap) (r : Ref) : Prop :=
  (h.table r).pairs.Pairwise fun p q => h.order p.1 q.1 ≠ .eq

/-- Keys of different ranks are listed in strictly increasing order. -/
theorem Ranked.pairwise_lt (hr : h.Ranked r) :
    (h.sortedPairs r).Pairwise fun p q => h.order p.1 q.1 = .lt := by
  have hne : (h.sortedPairs r).Pairwise fun p q => h.order p.1 q.1 ≠ .eq :=
    List.Pairwise.perm hr (h.perm_sortedPairs r).symm fun hne heq =>
      hne (Std.OrientedCmp.eq_symm heq)
  refine (h.pairwise_isLE_sortedPairs r).imp₂ ?_ hne
  intro p q hle hne
  cases ho : h.order p.1 q.1 with
  | lt => rfl
  | eq => exact absurd ho hne
  | gt =>
    rw [ho] at hle
    cases hle

/-- **There is one listing** in strictly increasing order. -/
theorem eq_of_pairwise_lt {ps qs : List (Value × Value)} (hperm : ps.Perm qs)
    (hps : ps.Pairwise fun p q => h.order p.1 q.1 = .lt)
    (hqs : qs.Pairwise fun p q => h.order p.1 q.1 = .lt) : ps = qs := by
  refine hperm.eq_of_pairwise (fun p q _ _ hpq hqp => ?_) hps hqs
  exact absurd hqp (Std.OrientedCmp.not_lt_of_lt hpq)

end Heap

/-! ### Other enumerations -/

/-- The cells hold the same, but may enumerate the entries of a map in different orders, and file
them differently. -/
inductive Cell.Reordered : Cell → Cell → Prop where
  | tuple (xs : Array Value) : Reordered (.tuple xs) (.tuple xs)
  | list (xs : Array Value) : Reordered (.list xs) (.list xs)
  | map {t u : Table} (hpairs : t.pairs.Perm u.pairs) : Reordered (.map t) (.map u)

namespace Heap

variable {h g : Heap} {r : Ref}

/-- The heaps have the same cells but for the order of entries. -/
def Reordered (h g : Heap) : Prop :=
  ∀ r : Ref, Option.Rel Cell.Reordered h.cells[r]? g.cells[r]?

namespace Reordered

variable (hg : h.Reordered g)

include hg

theorem size_eq : g.size = h.size := by
  refine eq_of_forall_lt_iff fun r => ?_
  have hr := hg r
  rw [← Nat.not_le, ← Nat.not_le, size, size, ← Array.getElem?_eq_none_iff,
    ← Array.getElem?_eq_none_iff]
  generalize h.cells[r]? = c, g.cells[r]? = d at hr
  cases hr with
  | none => exact Iff.rfl
  | some _ => exact iff_of_true (Option.some_ne_none _) (Option.some_ne_none _)

theorem items_eq (r : Ref) : g.items r = h.items r := by
  have hr := hg r
  unfold items
  generalize h.cells[r]? = c, g.cells[r]? = d at hr
  cases hr with
  | none => rfl
  | some hc => cases hc <;> rfl

theorem perm_pairs (r : Ref) : (h.table r).pairs.Perm (g.table r).pairs := by
  have hr := hg r
  unfold table
  generalize h.cells[r]? = c, g.cells[r]? = d at hr
  cases hr with
  | none => exact .refl _
  | some hc =>
    cases hc with
    | tuple _ | list _ => exact .refl _
    | map hpairs => exact hpairs

theorem size_table (r : Ref) : (g.table r).size = (h.table r).size := by
  have hlen := (hg.perm_pairs r).length_eq
  unfold Table.pairs at hlen
  rw [List.length_map, List.length_map] at hlen
  exact hlen.symm

theorem order_eq : g.order = h.order := by
  funext v w
  cases v <;> cases w <;> simp only [order, hg.items_eq, hg.size_table]

/-- **Listings do not depend on the enumeration.** -/
theorem sortedPairs_eq (hr : h.Ranked r) : g.sortedPairs r = h.sortedPairs r := by
  have hperm := hg.perm_pairs r
  have hr' : g.Ranked r := by
    unfold Ranked
    rw [hg.order_eq]
    exact List.Pairwise.perm hr hperm fun hne heq => hne (Std.OrientedCmp.eq_symm heq)
  have hlt := hr'.pairwise_lt
  rw [hg.order_eq] at hlt
  refine eq_of_pairwise_lt ?_ hlt hr.pairwise_lt
  exact (g.perm_sortedPairs r).trans (hperm.symm.trans (h.perm_sortedPairs r).symm)

variable (hranked : ∀ r, h.Ranked r)

include hranked

theorem innerTexts_eq {text text' : Value → String} (htext : ∀ v, text' v = text v) (v : Value)
    (r : Ref) : g.innerTexts text' v r = h.innerTexts text v r := by
  have heq : text' = text := funext htext
  subst heq
  have hitems : (g.items r).toList.map text' = (h.items r).toList.map text' := by
    rw [hg.items_eq]
  -- the text of an entry is made from its key and its value
  have hentries := congrArg (List.map fun p => text' p.1 ++ " => " ++ text' p.2)
    (hg.sortedPairs_eq (hranked r))
  unfold sortedPairs at hentries
  rw [List.map_map, List.map_map] at hentries
  cases v with
  | map _ => exact hentries
  | _ => exact hitems

theorem inspectFrom_eq (path : List Ref) (v : Value) :
    g.inspectFrom path v = h.inspectFrom path v := by
  cases hv : v.ref? with
  | none => rw [inspectFrom_of_plain hv, inspectFrom_of_plain hv]
  | some r =>
    rw [inspectFrom_of_ref hv, inspectFrom_of_ref hv, hg.size_eq]
    by_cases hp : r ∈ path
    · rw [if_pos hp, if_pos hp]
    by_cases hr : r < h.size
    -- the members are shown with this cell on the way
    · have ih := inspectFrom_eq (r :: path)
      rw [if_neg hp, if_neg hp, if_pos hr, if_pos hr, hg.innerTexts_eq hranked ih]
    · rw [if_neg hp, if_neg hp, if_neg hr, if_neg hr]
termination_by unopened path h.refs
decreasing_by exact unopened_cons_lt (mem_refs.2 hr) hp

/-- Texts do not depend on the enumeration. -/
theorem inspect_eq (v : Value) : g.inspect v = h.inspect v := hg.inspectFrom_eq hranked [] v

end Reordered

end Heap

end AtomScript
