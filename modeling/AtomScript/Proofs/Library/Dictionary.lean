import AtomScript.Library.Dictionary
import AtomScript.Proofs.Eval.Run
import AtomScript.Proofs.Heap.Lookup

/-!
# The operations of maps

In an orderly heap a map is a finite map from keys to values, where equal keys count as one
(`Native.runMap_lookup`).  Fetching takes any key, also one that contains itself, and compares it as
it is.  The operations that change a map detach the key first, and only then look at the map, so the
key may be the map itself.  They refuse a key that cannot be detached before they ask whether it is
there (`Native.runMap_delete_looped`).

That the maps are filed cannot be left out (`Heap.lookup_lengthened`).
-/

namespace AtomScript

namespace Eval

variable {st : State} {k copy : Value} {g : Heap} {kind : Kind} {limit : Nat}

/-- Detaching a key that can be detached. -/
theorem detachKey_of_ok (hd : st.heap.detach k = .ok (copy, g)) :
    detachKey k ⟨limit, none⟩ st = (.value copy, { st with heap := g }) := by
  unfold detachKey act
  dsimp only
  rw [hd]

/-- Detaching a key that contains itself. -/
theorem detachKey_of_error (hd : st.heap.detach k = .error kind) :
    detachKey k ⟨limit, none⟩ st = (.error (.selfContainingKey kind), st) := by
  unfold detachKey act
  dsimp only
  rw [hd]

end Eval

namespace Native

open Eval

variable {st : State} {k copy v : Value} {g : Heap} {kind : Kind} {limit : Nat} {m : Ref}

/-! ### Equations -/

/-- Reading a value is a lookup, with no copy of the key. -/
theorem runMap_fetch (st : State) (m : Ref) (k : Value) (b : Bounds) :
    runMap .fetch [.map m, k] b st =
      (.value ((st.heap.lookup m k).getD .null), st) := rfl

/-- Storing a value: the copy of the key, then the insertion. -/
theorem runMap_put (b : Bounds) :
    runMap .put [.map m, k, v] b st =
      (detachKey k >>= fun key => do
        editTable .put m fun h t => h.insert t key v
        return .map m) b st := rfl

/-- What replacing and deleting have in common: the key is detached, and must be there. -/
def changePresent (f : Native) (event : Ref → Event) (m : Ref) (k : Value)
    (change : Value → Heap → Table → Table) : Eval Value := do
  let key ← detachKey k
  if ← reading fun st => st.heap.contains (st.heap.table m) key then
    editTable event m (change key)
    return .map m
  else fail (.missingKey f (← inspect key))

/-- Replacing a value is a change of a key that must be there. -/
theorem runMap_replace (b : Bounds) :
    runMap .replace [.map m, k, v] b st =
      changePresent (.map .replace) .replace m k (fun key h t => h.replace t key v) b st := rfl

/-- Deleting a key is a change of a key that must be there. -/
theorem runMap_delete (b : Bounds) :
    runMap .delete [.map m, k] b st =
      changePresent (.map .delete) .delete m k (fun key h t => h.erase t key) b st := rfl

/-- A change of a key that can be detached: if it is there, the table is edited. -/
theorem changePresent_of_ok {f : Native} {event : Ref → Event}
    {change : Value → Heap → Table → Table} (hd : st.heap.detach k = .ok (copy, g)) :
    changePresent f event m k change ⟨limit, none⟩ st =
      if g.contains (g.table m) copy then
        (.value (.map m), { st with heap := g.editTable m (change copy g) })
      else (.error (.missingKey f (g.inspect copy)), { st with heap := g }) := by
  unfold changePresent
  rw [bind_of_value (detachKey_of_ok hd), bind_of_value rfl]
  dsimp only
  split <;> rfl

/-- A change of a key that contains itself. -/
theorem changePresent_of_error {f : Native} {event : Ref → Event}
    {change : Value → Heap → Table → Table} (hd : st.heap.detach k = .error kind) :
    changePresent f event m k change ⟨limit, none⟩ st =
      (.error (.selfContainingKey kind), st) := by
  unfold changePresent
  rw [bind_of_error (detachKey_of_error hd)]

/-! ### A map is a finite map -/

/-- The call gives the map back.  Of the state only the heap has changed, and of the heap only the
map. -/
def Updates (st : State) (m : Ref) (call : Ending Value × State) (found : Value → Option Value)
    (size : Nat) : Prop :=
  ∃ g, call = (.value (.map m), { st with heap := g }) ∧ st.heap.Updated g m found size

/-- The call fails, and all cells are as they were.  A copy of the key may be left behind, in new
cells. -/
def Refuses (st : State) (call : Ending Value × State) (category : String) : Prop :=
  ∃ e g, call = (.error e, { st with heap := g }) ∧ e.category = category ∧ st.heap.Extends g

section Detached

variable (hs : st.heap.StandsFor g k copy) (hh : st.heap.Orderly) (hm : st.heap.Fits (.map m))
  (hd : st.heap.detach k = .ok (copy, g))

include hs hh hm hd

/-- Storing a value updates the map at that key. -/
theorem updates_put (v : Value) :
    Updates st m (runMap .put [.map m, k, v] ⟨limit, none⟩ st)
      (fun p => if st.heap.equal p k then some v else st.heap.lookup m p)
      (if (st.heap.lookup m k).isSome then (st.heap.table m).size
        else (st.heap.table m).size + 1) := by
  refine ⟨_, ?_, hs.updated_insert hh hm v⟩
  rw [runMap_put, bind_of_value (detachKey_of_ok hd)]
  rfl

/-- A change of a present key finds the key, and refuses one that is missing. -/
theorem changePresent_eq {f : Native} {event : Ref → Event}
    {change : Value → Heap → Table → Table} :
    changePresent f event m k change ⟨limit, none⟩ st =
      if (st.heap.lookup m k).isSome then
        (.value (.map m), { st with heap := g.editTable m (change copy g) })
      else (.error (.missingKey f (g.inspect copy)), { st with heap := g }) := by
  rw [changePresent_of_ok hd, hs.agree.table_eq (hm.lt_size rfl), hs.contains_eq hh]

/-- A change of a key that is not there is refused. -/
theorem refuses_changePresent {f : Native} {event : Ref → Event}
    {change : Value → Heap → Table → Table} (hnone : st.heap.lookup m k = none) :
    Refuses st (changePresent f event m k change ⟨limit, none⟩ st) "IndexError" := by
  rw [changePresent_eq hs hh hm hd, hnone]
  exact ⟨_, _, rfl, rfl, hs.keeps⟩

variable (hin : (st.heap.lookup m k).isSome = true)

include hin

/-- Replacing a value updates the map at that key. -/
theorem updates_replace (v : Value) :
    Updates st m (runMap .replace [.map m, k, v] ⟨limit, none⟩ st)
      (fun p => if st.heap.equal p k then some v else st.heap.lookup m p)
      (st.heap.table m).size := by
  refine ⟨_, ?_, hs.updated_replace hh hm hin v⟩
  rw [runMap_replace, changePresent_eq hs hh hm hd, if_pos hin]

/-- Deleting a key updates the map at that key. -/
theorem updates_delete :
    Updates st m (runMap .delete [.map m, k] ⟨limit, none⟩ st)
      (fun p => if st.heap.equal p k then none else st.heap.lookup m p)
      ((st.heap.table m).size - 1) := by
  refine ⟨_, ?_, hs.updated_erase hh hm hin⟩
  rw [runMap_delete, changePresent_eq hs hh hm hd, if_pos hin]

end Detached

/-- A key that cannot be detached is refused before the map is looked at. -/
theorem runMap_of_detach_error (hd : st.heap.detach k = .error kind) (m : Ref) (v : Value) :
    runMap .put [.map m, k, v] ⟨limit, none⟩ st = (.error (.selfContainingKey kind), st) ∧
      runMap .replace [.map m, k, v] ⟨limit, none⟩ st = (.error (.selfContainingKey kind), st) ∧
      runMap .delete [.map m, k] ⟨limit, none⟩ st = (.error (.selfContainingKey kind), st) := by
  refine ⟨?_, ?_, ?_⟩
  · rw [runMap_put, bind_of_error (detachKey_of_error hd)]
  · rw [runMap_replace, changePresent_of_error hd]
  · rw [runMap_delete, changePresent_of_error hd]

/-- **A map is a finite map.**  Fetching finds the value of the only key that is equal to the given
one, and the comparisons that this takes come to an end.  A key that can be detached can be put; one
that is there can be replaced and deleted, and one that is missing is an index error.  A key that
cannot be detached is missing, and a type error.  Nothing changes but the map, and nothing is found
in it afterwards but what was there and what was put, by keys that do not reach the map. -/
theorem runMap_lookup (st : State) (m : Ref) (k v : Value) (limit : Nat)
    (hh : st.heap.Orderly) (hm : st.heap.Fits (.map m)) (hk : st.heap.Fits k) :
    ((∀ st' p, runMap .fetch [.map m, p] ⟨limit, none⟩ st' =
        (.value ((st'.heap.lookup m p).getD .null), st')) ∧
      st.heap.Stores m k (st.heap.lookup m k) ∧
      ∀ e ∈ (st.heap.table m).entries,
        st.heap.Compares true k e.key (st.heap.equal k e.key)) ∧
    ((∃ copy st', detachKey k ⟨limit, none⟩ st = (.value copy, st')) →
      Updates st m (runMap .put [.map m, k, v] ⟨limit, none⟩ st)
        (fun p => if st.heap.equal p k then some v else st.heap.lookup m p)
        (if (st.heap.lookup m k).isSome then (st.heap.table m).size
          else (st.heap.table m).size + 1)) ∧
    ((st.heap.lookup m k).isSome = true →
      Updates st m (runMap .replace [.map m, k, v] ⟨limit, none⟩ st)
        (fun p => if st.heap.equal p k then some v else st.heap.lookup m p)
        (st.heap.table m).size ∧
      Updates st m (runMap .delete [.map m, k] ⟨limit, none⟩ st)
        (fun p => if st.heap.equal p k then none else st.heap.lookup m p)
        ((st.heap.table m).size - 1)) ∧
    (st.heap.lookup m k = none → (∃ copy st', detachKey k ⟨limit, none⟩ st = (.value copy, st')) →
      Refuses st (runMap .replace [.map m, k, v] ⟨limit, none⟩ st) "IndexError" ∧
      Refuses st (runMap .delete [.map m, k] ⟨limit, none⟩ st) "IndexError") ∧
    ((¬ ∃ copy st', detachKey k ⟨limit, none⟩ st = (.value copy, st')) →
      st.heap.lookup m k = none ∧ ∃ e : Error, e.category = "TypeError" ∧
        runMap .put [.map m, k, v] ⟨limit, none⟩ st = (.error e, st) ∧
        runMap .replace [.map m, k, v] ⟨limit, none⟩ st = (.error e, st) ∧
        runMap .delete [.map m, k] ⟨limit, none⟩ st = (.error e, st)) := by
  refine ⟨⟨fun st' p => runMap_fetch st' m p _, hh.stores_lookup hk, fun e he =>
    hh.compares_key he⟩, ?_⟩
  cases hd : st.heap.detach k with
  | ok p =>
    have hs := hh.standsFor hk hd
    refine ⟨fun _ => updates_put hs hh hm hd v, fun hin => ?_, fun hnone _ => ?_, fun hnot => ?_⟩
    · exact ⟨updates_replace hs hh hm hd hin v, updates_delete hs hh hm hd hin⟩
    · rw [runMap_replace, runMap_delete]
      exact ⟨refuses_changePresent hs hh hm hd hnone, refuses_changePresent hs hh hm hd hnone⟩
    · exact absurd ⟨_, _, detachKey_of_ok hd⟩ hnot
  | error kind =>
    have hnot : ¬ ∃ copy st', detachKey k ⟨limit, none⟩ st = (.value copy, st') := by
      rintro ⟨copy, st', hvalue⟩
      rw [detachKey_of_error hd] at hvalue
      cases hvalue
    -- a key that is there could be detached
    have hnone : st.heap.lookup m k = none := by
      cases hfind : st.heap.lookup m k with
      | none => rfl
      | some x =>
        obtain ⟨n, hn⟩ := hh.exists_sound_of_lookup hk hfind
        obtain ⟨r, hr, hself⟩ := (Heap.exists_detach_eq_error_iff hh.typed hk).1 ⟨kind, hd⟩
        exact absurd hself (hn.acyclic hr)
    refine ⟨fun h => absurd h hnot, fun hin => ?_, fun _ h => absurd h hnot, fun _ => ?_⟩
    · rw [hnone] at hin
      cases hin
    · exact ⟨hnone, _, rfl, runMap_of_detach_error hd m v⟩

/-- A map is put into itself as a key: it had two entries and has three, and under a key that it had
it holds what it held. -/
theorem runMap_lookup_shared :
    Heap.shared.Orderly ∧ Heap.shared.Fits (.map 1) ∧
      ∃ g, runMap .put [.map 1, .map 1, .atom "v"] ⟨1, none⟩ ⟨Heap.shared, default, 0, 0, #[]⟩ =
          (.value (.map 1), ⟨g, default, 0, 0, #[]⟩) ∧
        (g.table 1).size = 3 ∧ g.lookup 1 (.tuple 0) = Heap.shared.lookup 1 (.tuple 0) ∧
        (g.lookup 1 (.tuple 0)).isSome = true := by
  have hh : Heap.shared.Orderly := Heap.sealed_shared.orderly Heap.wellTyped_shared
  have hmap : Heap.shared.Fits (.map 1) := by
    rintro _ ⟨⟩
    exact ⟨_, rfl, rfl⟩
  have htuple : Heap.shared.Fits (.tuple 0) := by
    rintro _ ⟨⟩
    exact ⟨_, rfl, rfl⟩
  -- the tuple holds atoms only, so no way leads from it to the map
  have hapart : ¬ Heap.shared.Reaches (.tuple 0) 1 := by
    have hclosed : Heap.shared.Closed (· = 0) := by
      rintro _ rfl
      simp [Heap.contents, Heap.shared, Heap.items, Heap.table, Value.In, Value.ref?, Table.empty,
        Table.withRoom]
    have hzero : (Value.tuple 0).In (· = 0) := by
      rintro _ ⟨⟩
      rfl
    exact fun hreach => absurd (hclosed.of_reaches hzero hreach) Nat.one_ne_zero
  have hkey : ∃ copy st', detachKey (.map 1) ⟨1, none⟩ ⟨Heap.shared, default, 0, 0, #[]⟩ =
      (.value copy, st') := by
    -- nothing in the example leads back to itself, so the key can be detached
    cases hd : Heap.shared.detach (.map 1) with
    | ok p => exact ⟨_, _, detachKey_of_ok hd⟩
    | error kind =>
      obtain ⟨r, hr, hself⟩ := (Heap.exists_detach_eq_error_iff hh.typed hmap).1 ⟨kind, hd⟩
      exact absurd hself (Heap.sealed_shared.not_containsItself
        (Heap.sealed_shared.closed.of_reaches hmap.in_size hr))
  have hnone : (Heap.shared.lookup 1 (.map 1)).isSome = false := by decide +kernel
  have hother : Heap.shared.equal (.tuple 0) (.map 1) = false := by decide +kernel
  have hsome : (Heap.shared.lookup 1 (.tuple 0)).isSome = true := by decide +kernel
  obtain ⟨-, hput, -⟩ := runMap_lookup ⟨Heap.shared, default, 0, 0, #[]⟩ 1 (.map 1) (.atom "v") 1
    hh hmap hmap
  obtain ⟨g, hrun, hupdated⟩ := hput hkey
  have hsize := hupdated.size
  have hfound := hupdated.found (.tuple 0) htuple hapart
  dsimp only at hsize hfound
  rw [hnone] at hsize
  rw [hother, if_neg Bool.false_ne_true] at hfound
  exact ⟨hh, hmap, g, hrun, hsize, hfound, hfound ▸ hsome⟩

end Native

namespace Heap

/-- An empty map, and a list that contains itself. -/
def looped : Heap where
  cells := #[.map .empty, .list #[.atom "x", .list 1]]

/-- The example has no entries. -/
theorem entries_looped (r : Ref) : (looped.table r).entries = [] := by
  match r with
  | 0 | 1 => rfl
  | r + 2 => rfl

/-- The example is orderly. -/
theorem orderly_looped : looped.Orderly := by
  refine ⟨?_, fun r => ⟨?_, ?_⟩, fun r e he => ?_⟩
  · intro r c hc
    -- cell 0 is the empty map, cell 1 the list that holds itself
    match r with
    | 0 =>
      cases hc
      exact Cell.holds_map (Table.holds_withRoom 0)
    | 1 =>
      cases hc
      refine Cell.holds_list ?_
      have hlist : looped.Fits (.list 1) := by
        rintro _ ⟨⟩
        exact ⟨_, rfl, rfl⟩
      have hatom : looped.Fits (.atom "x") := nofun
      simp [hlist, hatom]
    | r + 2 => cases hc
  · simp [entries_looped r]
  · simp [entries_looped r]
  · rw [entries_looped r] at he
    cases he

/-- That maps are filed cannot be dropped: the list is equal to the key, which was shorter when it
was filed, and is not found. -/
theorem lookup_lengthened :
    lengthened.equal (.list 2) (.list 0) = true ∧ (lengthened.table 1).entries.length = 1 ∧
      (lengthened.lookup 1 (.list 2)).isSome = false := by
  refine ⟨by decide +kernel, rfl, by decide +kernel⟩

end Heap

/-- A missing key that contains itself is a type error, and no index error. -/
theorem Native.runMap_delete_looped :
    Heap.looped.Orderly ∧ Heap.looped.Fits (.map 0) ∧ Heap.looped.Fits (.list 1) ∧
      Heap.looped.Stores 0 (.list 1) none ∧
      (∃ e st, Native.runMap .delete [.map 0, .list 1] ⟨1, none⟩
        ⟨Heap.looped, default, 0, 0, #[]⟩ = (.error e, st) ∧ e.category ≠ "IndexError") ∧
      ∃ e st, Native.runMap .replace [.map 0, .list 1, .null] ⟨1, none⟩
        ⟨Heap.looped, default, 0, 0, #[]⟩ = (.error e, st) ∧ e.category ≠ "IndexError" := by
  have hmap : Heap.looped.Fits (.map 0) := by
    rintro _ ⟨⟩
    exact ⟨_, rfl, rfl⟩
  have hlist : Heap.looped.Fits (.list 1) := by
    rintro _ ⟨⟩
    exact ⟨_, rfl, rfl⟩
  -- nothing is filed in the map at all
  have hmissing : Heap.looped.Stores 0 (.list 1) none := by
    intro e he
    rw [Heap.entries_looped 0] at he
    cases he
  -- yet the list cannot be copied, so both operations fail before they look for it
  have hself : Heap.looped.ContainsItself 1 :=
    .single ⟨.list 1, by simp [Heap.contents, Heap.looped, Heap.items], rfl⟩
  obtain ⟨kind, hd⟩ := (Heap.exists_detach_eq_error_iff Heap.orderly_looped.typed hlist).2
    ⟨1, .self rfl, hself⟩
  have hcategory : (Error.selfContainingKey kind).category ≠ "IndexError" := by
    simp [Error.category]
  have hd' : (State.mk Heap.looped default 0 0 #[]).heap.detach (.list 1) = .error kind := hd
  obtain ⟨-, hreplace, hdelete⟩ := Native.runMap_of_detach_error hd' 0 .null
  exact ⟨Heap.orderly_looped, hmap, hlist, hmissing, ⟨_, _, hdelete, hcategory⟩, _, _, hreplace,
    hcategory⟩

end AtomScript
