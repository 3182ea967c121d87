import AtomScript.Library.Dispatch
import AtomScript.Proofs.Eval.Run
import AtomScript.Proofs.Heap.Order

/-!
# Sorting a list

The order of values is a total preorder that goes by kind first (`Heap.preordered`).  A list is
sorted (`Heap.Sorts`) when its values are in order and no two that the order does not tell apart
have been exchanged.  There is one such list (`Heap.Sorts.unique`), so nothing depends on the method
by which it is found, and sorting a list makes a new one that holds it (`Native.sort_stable`).
-/

namespace AtomScript

/-- Sorting leaves a class of members in which none goes behind another as it stands. -/
theorem filter_mergeSort {α : Type} {le : α → α → Bool} {p : α → Bool}
    (trans : ∀ a b c, le a b = true → le b c = true → le a c = true)
    (total : ∀ a b, (le a b || le b a) = true)
    (hp : ∀ a b, p a = true → p b = true → le a b = true) (as : List α) :
    (as.mergeSort le).filter p = as.filter p := by
  -- the class is in order already, so the sorted list has it as it was
  have hordered : (as.filter p).Pairwise fun a b => le a b = true :=
    List.pairwise_of_forall_mem_list fun a ha b hb =>
      hp a b (List.mem_filter.1 ha).2 (List.mem_filter.1 hb).2
  have hsub := (List.sublist_mergeSort trans total hordered List.filter_sublist).filter p
  simp only [List.filter_filter, Bool.and_self] at hsub
  -- and it has no others of this class
  have hlen := ((List.mergeSort_perm as le).filter p).length_eq
  exact (hsub.eq_of_length hlen.symm).symm

/-- The kinds that the order of values tells apart, in their order.  Values of all other kinds come
after them. -/
def Kind.ranked : List Kind := [.number, .atom, .tuple, .list, .map, .string]

namespace Heap

variable {h : Heap} {v w : Value} {us vs ws : List Value}

/-! ### The order of values -/

/-- The order of values is a total preorder, in which values are ordered by their kinds, and
aggregates of one kind by their sizes. -/
structure Preordered (h : Heap) : Prop where
  refl : ∀ v, h.order v v = .eq
  swap : ∀ v w, h.order w v = (h.order v w).swap
  trans : ∀ u v w, (h.order u v).isLE = true → (h.order v w).isLE = true →
    (h.order u w).isLE = true
  kinds : ∀ last ∉ Kind.ranked, (Kind.ranked ++ [last]).Pairwise fun j k =>
    ∀ v w, v.kind = j → w.kind = k → h.order v w = .lt
  others : ∀ v w, v.kind ∉ Kind.ranked → w.kind ∉ Kind.ranked → h.order v w = .eq
  sequences : ∀ kind r s, h.order (.ofSequence kind r) (.ofSequence kind s) =
    compare (h.items r).size (h.items s).size
  maps : ∀ r s, h.order (.map r) (.map s) = compare (h.table r).size (h.table s).size

theorem order_of_rank_lt (hlt : v.kind.rank < w.kind.rank) : h.order v w = .lt := by
  have hne : v.kind ≠ w.kind := fun heq => Nat.ne_of_lt hlt (congrArg Kind.rank heq)
  rw [order_of_kind_ne hne]
  exact Nat.compare_eq_lt.2 hlt

/-- Nothing about a value of another kind counts. -/
theorem rank_of_notMem_ranked (h : Heap) (hv : v.kind ∉ Kind.ranked) :
    v.kind.rank = 6 ∧ h.weight v = 0 ∧ v.spelling = "" := by
  cases v with
  | number | atom | tuple | list | map | string => simp [Value.kind, Kind.ranked] at hv
  | _ => exact ⟨rfl, rfl, rfl⟩

theorem isLE_order_trans (h : Heap) (u v w : Value) (huv : (h.order u v).isLE = true)
    (hvw : (h.order v w).isLE = true) : (h.order u w).isLE = true :=
  Std.TransCmp.isLE_trans huv hvw

/-- **The order is a total preorder** on values of all kinds. -/
theorem preordered (h : Heap) : h.Preordered where
  refl _ := Std.ReflCmp.compare_self
  swap _ _ := Std.OrientedCmp.eq_swap
  trans := h.isLE_order_trans
  kinds last hlast := by
    have hranks : (Kind.ranked ++ [last]).Pairwise fun j k => j.rank < k.rank := by
      revert hlast
      cases last <;> decide
    refine hranks.imp fun hlt v w hv hw => ?_
    subst hv hw
    exact order_of_rank_lt hlt
  others v w hv hw := by
    obtain ⟨hrank, hweight, hspelling⟩ := h.rank_of_notMem_ranked hv
    obtain ⟨hrank', hweight', hspelling'⟩ := h.rank_of_notMem_ranked hw
    rw [order_eq]
    simp only [compareLex, compareOn, hrank, hrank', hweight, hweight', hspelling, hspelling']
    rfl
  sequences kind r s := by
    cases kind with
    | tuple => rfl
    | list => rfl
  maps _ _ := rfl

/-! ### Sorted lists -/

/-- `ws` are the values `vs` in order, and those that the order does not tell apart come in the
order in which they came before. -/
structure Sorts (h : Heap) (vs ws : List Value) : Prop where
  perm : ws.Perm vs
  ordered : ws.Pairwise fun v w => (h.order v w).isLE = true
  stable : ∀ u, ws.filter (fun v => (h.order u v).isEq) = vs.filter fun v => (h.order u v).isEq

/-- Values that the order does not tell apart are in order, whichever comes first. -/
theorem isLE_order_of_isEq (h : Heap) (u v w : Value) (hv : (h.order u v).isEq = true)
    (hw : (h.order u w).isEq = true) : (h.order v w).isLE = true := by
  have huv : h.order u v = .eq := Ordering.isEq_iff_eq_eq.1 hv
  have huw : h.order u w = .eq := Ordering.isEq_iff_eq_eq.1 hw
  have hvw : h.order v w = .eq := Std.TransCmp.eq_trans (Std.OrientedCmp.eq_symm huv) huw
  rw [hvw]
  rfl

/-- **Sorting sorts.** -/
theorem sorts_sortValues (h : Heap) (vs : List Value) : h.Sorts vs (h.sortValues vs) where
  perm := List.mergeSort_perm vs _
  ordered := List.pairwise_mergeSort h.isLE_order_trans h.isLE_order_total vs
  stable u := filter_mergeSort h.isLE_order_trans h.isLE_order_total (h.isLE_order_of_isEq u) vs

/-- The first value of a list in order is not above any other. -/
theorem isLE_of_mem_of_ordered (hvs : (v :: vs).Pairwise fun v w => (h.order v w).isLE = true)
    (hw : w ∈ v :: vs) : (h.order v w).isLE = true := by
  rcases List.mem_cons.1 hw with rfl | hw
  · rw [h.preordered.refl]
    rfl
  · exact (List.pairwise_cons.1 hvs).1 w hw

/-- **There is one way to sort.** -/
theorem Sorts.unique (hvs : h.Sorts us vs) (hws : h.Sorts us ws) : vs = ws := by
  obtain ⟨hperm, hordered, hstable⟩ := hvs
  obtain ⟨hperm', hordered', hstable'⟩ := hws
  replace hperm := hperm.trans hperm'.symm
  replace hstable := fun u => (hstable u).trans (hstable' u).symm
  clear hperm' hstable'
  induction vs generalizing ws with
  | nil => exact (List.nil_perm.1 hperm).symm
  | cons v vs ih =>
    cases ws with
    | nil => exact absurd hperm.length_eq (Nat.succ_ne_zero _)
    | cons w ws =>
      -- neither of the two first values is above the other, so both stand in front of their rank
      have hvw : h.order v w = .eq := Std.OrientedCmp.isLE_antisymm
        (isLE_of_mem_of_ordered hordered (hperm.symm.subset List.mem_cons_self))
        (isLE_of_mem_of_ordered hordered' (hperm.subset List.mem_cons_self))
      have hfirst := hstable v
      simp only [List.filter_cons, h.preordered.refl, hvw, Ordering.isEq, if_true] at hfirst
      obtain ⟨rfl, -⟩ := List.cons.inj hfirst
      -- what is behind them agrees in the same way
      refine congrArg (v :: ·) (ih (List.pairwise_cons.1 hordered).2
        (List.pairwise_cons.1 hordered').2 (List.Perm.cons_inv hperm) fun u => ?_)
      have hu := hstable u
      simp only [List.filter_cons] at hu
      split at hu
      · exact (List.cons.inj hu).2
      · exact hu

end Heap

namespace Native

/-- **Sorting is stable.**  The order of values is a total preorder, by kind first.  Sorting a list
gives a new list of its elements in order, those that the order does not tell apart as they stood;
there is no other such list.  Nothing else changes. -/
theorem sort_stable (call : Caller) (limit : Nat) (st : State) (r : Ref) :
    st.heap.Preordered ∧
    ∃ vs, st.heap.Sorts (st.heap.items r).toList vs ∧
      (∀ ws, st.heap.Sorts (st.heap.items r).toList ws → ws = vs) ∧
      (Native.enum .sort).run call [.list r] ⟨limit, none⟩ st =
        (.value (.list st.heap.size),
          { st with heap := st.heap.push (.list vs.toArray) }) ∧
      (st.heap.push (.list vs.toArray)).cells[st.heap.size]? = some (.list vs.toArray) ∧
      st.heap.Extends (st.heap.push (.list vs.toArray)) := by
  have hsorts := st.heap.sorts_sortValues (st.heap.items r).toList
  refine ⟨st.heap.preordered, _, hsorts, fun ws hws => hws.unique hsorts, rfl, ?_,
    st.heap.extends_push _⟩
  rw [Heap.cell_push, if_pos rfl]

end Native

end AtomScript
