import AtomScript.Proofs.Heap.Equality

/-!
# Filed tables

Every operation on a table leaves it filed, in the heap that it is done in: a new entry is filed
under the present fingerprint of its key, and is added only if no entry answers to the key.  That
entry would be found, because equal values have equal fingerprints.
-/

namespace AtomScript.Heap

variable {h : Heap} {t u : Table} {key value : Value}

/-- Being filed is a matter of the keys and what they are filed under. -/
theorem Filed.of_map_eq (ht : h.Filed t)
    (heq : u.entries.map (fun e => (e.filed, e.key)) = t.entries.map fun e => (e.filed, e.key)) :
    h.Filed u := by
  have hfiled : ∀ p ∈ t.entries.map (fun e => (e.filed, e.key)), p.1 = h.fingerprint p.2 := by
    intro p hp
    obtain ⟨e, he, rfl⟩ := List.mem_map.1 hp
    exact ht.filed e he
  have hdistinct : (t.entries.map fun e => (e.filed, e.key)).Pairwise fun p q =>
      h.equal q.2 p.2 = false := List.pairwise_map.2 ht.distinct
  rw [← heq] at hfiled hdistinct
  exact ⟨fun e he => hfiled _ (List.mem_map_of_mem he), List.pairwise_map.1 hdistinct⟩

theorem filed_withRoom (h : Heap) (n : Nat) : h.Filed (.withRoom n) :=
  ⟨fun _ he => absurd he (by simp [Table.withRoom]), List.Pairwise.nil⟩

/-- Filing anew changes nothing in a table that is filed. -/
theorem Filed.makeRoom (ht : h.Filed t) : h.Filed (h.makeRoom t) := by
  refine ht.of_map_eq ?_
  unfold Heap.makeRoom
  split
  · rfl
  -- an entry is filed anew under the fingerprint that its key has now, where it was already
  · rw [List.map_map]
    refine List.map_congr_left fun e he => ?_
    rw [Function.comp_apply, ht.filed e he]

theorem map_replaceIn (h : Heap) (key value : Value) (es : List Entry) :
    (h.replaceIn key value es).map (fun e => (e.filed, e.key)) =
      es.map fun e => (e.filed, e.key) := by
  induction es with
  | nil => rfl
  | cons e es ih =>
    unfold replaceIn
    split
    · rfl
    · rw [List.map_cons, List.map_cons, ih]

theorem Filed.replace (ht : h.Filed t) : h.Filed (h.replace t key value) :=
  ht.of_map_eq (h.map_replaceIn key value t.entries)

/-- Changing a value leaves the keys in their places. -/
theorem keys_replace (h : Heap) (t : Table) (key value : Value) :
    (h.replace t key value).entries.map (·.key) = t.entries.map (·.key) := by
  have hmap := congrArg (List.map Prod.snd) (h.map_replaceIn key value t.entries)
  rw [List.map_map, List.map_map] at hmap
  exact hmap

theorem Filed.erase (ht : h.Filed t) : h.Filed (h.erase t key) :=
  ⟨fun e he => ht.filed e (List.mem_of_mem_eraseP he), ht.distinct.sublist List.eraseP_sublist⟩

/-- An entry that is filed under the present fingerprint of its key answers to the keys that are
equal to its own: they have the same fingerprint. -/
theorem answers_of_filed {e : Entry} (hfiled : e.filed = h.fingerprint e.key) :
    h.answers key e = h.equal key e.key := by
  unfold answers
  cases heq : h.equal key e.key with
  | false => rw [Bool.and_false]
  | true =>
    rw [hfiled, fingerprint_eq_of_equal heq, Bool.and_true]
    exact beq_self_eq_true _

theorem Filed.answers_eq (ht : h.Filed t) {e : Entry} (he : e ∈ t.entries) :
    h.answers key e = h.equal key e.key :=
  answers_of_filed (ht.filed e he)

/-- If no entry answers to a key, no key is equal to it. -/
theorem Filed.equal_eq_false (ht : h.Filed t) (hnone : h.contains t key = false) {e : Entry}
    (he : e ∈ t.entries) : h.equal key e.key = false := by
  have hanswers := List.any_eq_false.1 hnone e he
  rwa [ht.answers_eq he, Bool.not_eq_true] at hanswers

theorem Filed.insert (ht : h.Filed t) : h.Filed (h.insert t key value) := by
  unfold Heap.insert
  dsimp only
  split
  · exact ht.makeRoom.replace
  · next hnone =>
    -- the new entry comes last; no entry answers to its key, so it is equal to none
    have hroom := ht.makeRoom
    rw [Bool.not_eq_true] at hnone
    refine ⟨fun e he => ?_,
      List.pairwise_append.2 ⟨hroom.distinct, List.pairwise_singleton _ _, ?_⟩⟩
    · rcases List.mem_append.1 he with he | he
      · exact hroom.filed e he
      · rw [List.mem_singleton] at he
        rw [he]
    · intro e he f hf
      rw [List.mem_singleton] at hf
      rw [hf]
      exact hroom.equal_eq_false hnone he

end AtomScript.Heap
