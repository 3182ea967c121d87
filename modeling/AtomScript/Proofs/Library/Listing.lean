import AtomScript.Library.Traversal
import AtomScript.Proofs.Eval.Run
import AtomScript.Proofs.Heap.Order

/-!
# Listing a map

All that goes through the entries of a map goes through the same list of pairs (`Native.Lists`): the
lists of its keys, its values and its entries, and the walks that call a function for each entry.
So the order in which the map enumerates its entries, which is a matter of its history, is not to be
seen in any of them (`Native.lists_reordered`), as long as the keys have different ranks.
-/

namespace AtomScript

namespace Eval

variable {α β γ : Type}

theorem mapAll_map (f : β → Eval γ) (g : α → β) (as : List α) :
    mapAll f (as.map g) = mapAll (fun a => f (g a)) as := by
  induction as with
  | nil => rfl
  | cons a as ih => rw [List.map_cons, mapAll, mapAll, ih]

theorem foldAll_map (f : γ → β → Eval γ) (g : α → β) (c : γ) (as : List α) :
    foldAll f c (as.map g) = foldAll (fun c a => f c (g a)) c as := by
  induction as generalizing c with
  | nil => rfl
  | cons a as ih => simp only [List.map_cons, foldAll, ih]

end Eval

/-- Adds a tuple for each pair. -/
def Heap.pushPairs (h : Heap) (ps : List (Value × Value)) : Heap :=
  ps.foldl (fun h p => h.push (.tuple #[p.1, p.2])) h

/-- The tuples that have been added for the pairs. -/
def Heap.newTuples (h : Heap) (ps : List (Value × Value)) : List Value :=
  (List.range' h.size ps.length).map .tuple

namespace Native

open Eval

variable {st st' : State} {m : Ref} {limit : Nat}

/-! ### Walks -/

/-- The tuples that stand for the pairs, in new cells. -/
def pairTuples (ps : List (Value × Value)) : Eval (List Value) :=
  mapAll (fun p => newTuple [p.1, p.2]) ps

theorem pairTuples_apply (ps : List (Value × Value)) (st : State) :
    pairTuples ps ⟨limit, none⟩ st =
      (.value (st.heap.newTuples ps), { st with heap := st.heap.pushPairs ps }) := by
  induction ps generalizing st with
  | nil => rfl
  | cons p ps ih =>
    have hfirst : newTuple [p.1, p.2] ⟨limit, none⟩ st =
        (.value (.tuple st.heap.size),
          { st with heap := st.heap.push (.tuple #[p.1, p.2]) }) := rfl
    -- the first pair is the cell at the size of the heap, the others come behind it
    change (newTuple [p.1, p.2] >>= fun v => pairTuples ps >>= fun vs => pure (v :: vs)) _ _ = _
    rw [bind_of_value hfirst, bind_of_value (ih _)]
    unfold Heap.newTuples
    rw [Heap.size_push]
    rfl

/-- Calls the function for each pair, and gathers in a new map the pairs that it gives. -/
def mapPairs (call : Caller) (callback : Value) (ps : List (Value × Value)) : Eval Value := do
  let t ← foldAll
    (fun t p => do
      let (k, v) ← asPair (.enum .map) (← call callback [p.1, p.2])
      addEntry t (← detachKey k) v)
    Table.empty ps
  newMap t

/-- Calls the function for each pair, and gathers in a new map the pairs for which it holds. -/
def filterPairs (call : Caller) (callback : Value) (ps : List (Value × Value)) : Eval Value := do
  let t ← foldAll
    (fun t p => do
      if (← call callback [p.1, p.2]).isTruthy then addEntry t p.1 p.2
      else return t)
    Table.empty ps
  newMap t

/-- Calls the function for each pair, as a tuple, with what it gave for the pair before. -/
def reducePairs (call : Caller) (callback start : Value) (ps : List (Value × Value)) :
    Eval Value := do
  foldAll (fun acc v => call callback [v, acc]) start (← pairTuples ps)

/-! ### What goes through a map -/

/-- All that goes through the entries of the map goes through the pairs. -/
structure Lists (st : State) (m : Ref) (ps : List (Value × Value)) : Prop where
  keys : ∀ limit, runMap .keys [.map m] ⟨limit, none⟩ st =
    (.value (.list st.heap.size),
      { st with heap := st.heap.push (.list (ps.map (·.1)).toArray) })
  values : ∀ limit, runMap .values [.map m] ⟨limit, none⟩ st =
    (.value (.list st.heap.size),
      { st with heap := st.heap.push (.list (ps.map (·.2)).toArray) })
  toList : ∀ limit, runMap .toList [.map m] ⟨limit, none⟩ st =
    (.value (.list (st.heap.pushPairs ps).size),
      { st with heap := (st.heap.pushPairs ps).push (.list (st.heap.newTuples ps).toArray) })
  map : ∀ limit call callback, callback.isCallable = true →
    runEnum call .map [.map m, callback] ⟨limit, none⟩ st =
      mapPairs call callback ps ⟨limit, none⟩ st
  filter : ∀ limit call callback, callback.isCallable = true →
    runEnum call .filter [.map m, callback] ⟨limit, none⟩ st =
      filterPairs call callback ps ⟨limit, none⟩ st
  reduce : ∀ limit call callback start, callback.isCallable = true →
    runEnum call .reduce [.map m, start, callback] ⟨limit, none⟩ st =
      reducePairs call callback start ps ⟨limit, none⟩ st

/-- **Everything goes through the sorted pairs.** -/
theorem lists_sortedPairs (st : State) (m : Ref) : Lists st m (st.heap.sortedPairs m) where
  -- each of them starts from the sorted entries, read as pairs
  keys limit := by
    unfold Heap.sortedPairs
    rw [List.map_map]
    rfl
  values limit := by
    unfold Heap.sortedPairs
    rw [List.map_map]
    rfl
  toList limit := by
    change (mapAll (fun e => newTuple [e.key, e.value]) (st.heap.sortedEntries m) >>= newList)
      ⟨limit, none⟩ st = _
    have htuples : mapAll (fun e => newTuple [e.key, e.value]) (st.heap.sortedEntries m) =
        pairTuples (st.heap.sortedPairs m) := by
      unfold pairTuples Heap.sortedPairs
      rw [mapAll_map]
    rw [htuples, bind_of_value (pairTuples_apply _ st)]
    rfl
  map limit call callback hcall := by
    unfold mapPairs Heap.sortedPairs
    rw [foldAll_map]
    unfold runEnum
    simp only [hcall, if_true]
    rfl
  filter limit call callback hcall := by
    unfold filterPairs Heap.sortedPairs
    rw [foldAll_map]
    unfold runEnum
    simp only [hcall, if_true]
    rfl
  reduce limit call callback start hcall := by
    unfold reducePairs pairTuples Heap.sortedPairs
    rw [mapAll_map]
    unfold runEnum
    simp only [hcall, if_true]
    rfl

/-- **The history of a map is not to be seen.**  In two states whose heaps differ only in how maps
enumerate their entries, no map having two keys of the same rank, values have the same texts, and
what goes through the entries of a map goes through the same pairs: all of its entries, in strictly
increasing order of their keys. -/
theorem lists_reordered (st st' : State) (hheap : st.heap.Reordered st'.heap)
    (hranked : ∀ r, st.heap.Ranked r) :
    st'.heap.size = st.heap.size ∧ (∀ v, st'.heap.inspect v = st.heap.inspect v) ∧
    ∀ m, ∃ ps : List (Value × Value), ps.Perm (st.heap.table m).pairs ∧
      ps.Perm (st'.heap.table m).pairs ∧
      (ps.Pairwise fun p q => st.heap.order p.1 q.1 = .lt) ∧ Lists st m ps ∧ Lists st' m ps := by
  refine ⟨hheap.size_eq, hheap.inspect_eq hranked, fun m => ?_⟩
  have hlists := lists_sortedPairs st' m
  rw [hheap.sortedPairs_eq (hranked m)] at hlists
  have hperm := st.heap.perm_sortedPairs m
  exact ⟨st.heap.sortedPairs m, hperm, hperm.trans (hheap.perm_pairs m), (hranked m).pairwise_lt,
    lists_sortedPairs st m, hlists⟩

end Native

/-- A map with keys of three kinds, which holds itself. -/
def Heap.mixed (es : List Entry) : Heap where
  cells := #[.tuple #[], .map ⟨3, es⟩]

def Heap.mixedEntries : List Entry :=
  [⟨.string "s", .string "s", .map 1⟩, ⟨.atom "b", .atom "b", .tuple 0⟩,
    ⟨.tuple 0, .tuple 0, .atom "x"⟩]

/-- Whether the entries are enumerated forwards or backwards makes no difference. -/
theorem Native.lists_reordered_mixed :
    (Heap.mixed Heap.mixedEntries).Reordered (Heap.mixed Heap.mixedEntries.reverse) ∧
      (∀ r, (Heap.mixed Heap.mixedEntries).Ranked r) ∧
      (Heap.mixed Heap.mixedEntries.reverse).inspect (.map 1) =
        (Heap.mixed Heap.mixedEntries).inspect (.map 1) ∧
      ∃ ps, Native.Lists ⟨Heap.mixed Heap.mixedEntries, default, 0, 0, #[]⟩ 1 ps ∧
        Native.Lists ⟨Heap.mixed Heap.mixedEntries.reverse, default, 0, 0, #[]⟩ 1 ps := by
  have hheap : (Heap.mixed Heap.mixedEntries).Reordered
      (Heap.mixed Heap.mixedEntries.reverse) := by
    intro r
    match r with
    | 0 => exact .some (.tuple _)
    | 1 => exact .some (.map (Heap.mixedEntries.reverse_perm.symm.map _))
    | r + 2 => exact .none
  have hranked : ∀ r, (Heap.mixed Heap.mixedEntries).Ranked r := by
    intro r
    match r with
    | 0 => exact .nil
    | 1 =>
      unfold Heap.Ranked
      decide +kernel
    | r + 2 => exact .nil
  obtain ⟨-, hinspect, hlists⟩ := Native.lists_reordered
    ⟨Heap.mixed Heap.mixedEntries, default, 0, 0, #[]⟩
    ⟨Heap.mixed Heap.mixedEntries.reverse, default, 0, 0, #[]⟩ hheap hranked
  obtain ⟨ps, -, -, -, hps, hps'⟩ := hlists 1
  exact ⟨hheap, hranked, hinspect _, ps, hps, hps'⟩

end AtomScript
