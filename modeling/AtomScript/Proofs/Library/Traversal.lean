import AtomScript.Eval.Basic
import AtomScript.Proofs.Library.Dictionary
import AtomScript.Proofs.Library.Listing
import AtomScript.Proofs.Library.Sequence

/-!
# Walks that call a function

A walk over a list or a map calls a function for each element that is there when the walk starts.
The function may do anything to the state, the collection included; so a walk is described by the
calls it makes (`Native.Visit`), each with the states before and after, and by what happens between
them: nothing but the making of cells (`Native.Walk`).

* `Native.Traversal` — the ways in which a walk comes to its end: all calls have been made, or one
  has failed, or the walk has refused a result;
* `Native.perform_enum` — the calls that `Enum.map`, `Enum.filter` and `Enum.reduce` make, and what
  comes of them.

Walking a map to make another one refuses results that are no pairs (`Native.perform_map_unpaired`).
-/

namespace AtomScript

/-! ### Cells that are added -/

/-- The second state is the first one with cells added. -/
def State.Adds (st st' : State) : Prop :=
  ∃ g, st' = { st with heap := g } ∧ st.heap.Extends g

namespace State.Adds

variable {st st' st'' : State}

/-- A state adds nothing to itself. -/
theorem refl (st : State) : st.Adds st := ⟨st.heap, rfl, .refl _⟩

/-- Adding cells twice is adding cells. -/
theorem trans (h : st.Adds st') (h' : st'.Adds st'') : st.Adds st'' := by
  obtain ⟨g, rfl, hg⟩ := h
  obtain ⟨k, rfl, hk⟩ := h'
  exact ⟨k, rfl, hg.trans hk⟩

end State.Adds

/-- Detaching a key only adds cells. -/
theorem Heap.extends_of_detach {h g : Heap} {v copy : Value} (hd : h.detach v = .ok (copy, g)) :
    h.Extends g := by
  have hopens : h.Opens fun _ => True :=
    fun _ _ _ _ => ⟨fun _ _ => trivial, fun _ _ => ⟨trivial, trivial⟩⟩
  exact (of_detach_values (fun _ _ _ _ => trivial) hopens trivial hd).1

namespace Native

open Eval

/-- A call of the function, with its arguments, its result, and the states before and after. -/
structure Visit where
  args : List Value
  before : State
  result : Value
  after : State

/-! ### Walks -/

section Walks

variable (visit : List Value → Eval Value) (limit : Nat)
  (refuses : Value → State → Error → Prop)

/-- The calls happen one after another on the way from the one state to the other.  Between them
nothing is done but that cells are added, and no result is refused. -/
inductive Walk : State → List Visit → State → Prop where
  | nil {st last : State} : st.Adds last → Walk st [] last
  | cons {st last : State} {v : Visit} {vs : List Visit} : st.Adds v.before →
    visit v.args ⟨limit, none⟩ v.before = (.value v.result, v.after) →
    (∀ e, ¬ refuses v.result v.after e) → Walk v.after vs last → Walk st (v :: vs) last

/-- The ways in which a walk ends that has the calls `calls results` to make, the results being
those of the calls already made: they are all made, and what comes of them is described by `done`;
or one of them gives no value, and this is how the walk ends; or the result of one is refused. -/
inductive Traversal (calls : List Value → List (List Value))
    (done : List Visit → State → Ending Value × State → Prop) (st : State) :
    Ending Value × State → Prop where
  | completes {vs : List Visit} {last : State} {ran : Ending Value × State} :
    Walk visit limit refuses st vs last → vs.map Visit.args = calls (vs.map Visit.result) →
    done vs last ran → Traversal calls done st ran
  | fails {vs : List Visit} {args : List Value} {before after : State} {ending : Ending Value} :
    Walk visit limit refuses st vs before →
    vs.map Visit.args ++ [args] <+: calls (vs.map Visit.result) →
    visit args ⟨limit, none⟩ before = (ending, after) → (∀ v, ending ≠ .value v) →
    Traversal calls done st (ending, after)
  | refuses {vs : List Visit} {args : List Value} {before after : State} {result : Value}
    {e : Error} : Walk visit limit refuses st vs before →
    vs.map Visit.args ++ [args] <+: calls (vs.map Visit.result) →
    visit args ⟨limit, none⟩ before = (.value result, after) → refuses result after e →
    Traversal calls done st (.error e, after)

variable {visit limit refuses} {st st' last : State} {vs : List Visit} {args : List Value}
  {calls : List Value → List (List Value)} {ran : Ending Value × State}
  {done : List Visit → State → Ending Value × State → Prop}

/-- A walk may start before cells that are not its own are added. -/
theorem Walk.adds (h : st.Adds st') (hw : Walk visit limit refuses st' vs last) :
    Walk visit limit refuses st vs last := by
  cases hw with
  | nil h' => exact .nil (h.trans h')
  | cons h' hvisit htaken hrest => exact .cons (h.trans h') hvisit htaken hrest

/-- Cells may be added before a walk. -/
theorem Traversal.adds (h : st.Adds st') (ht : Traversal visit limit refuses calls done st' ran) :
    Traversal visit limit refuses calls done st ran := by
  cases ht with
  | completes hw hargs hdone => exact .completes (hw.adds h) hargs hdone
  | fails hw hargs hvisit hending => exact .fails (hw.adds h) hargs hvisit hending
  | refuses hw hargs hvisit hrefuses => exact .refuses (hw.adds h) hargs hvisit hrefuses

/-- With no calls to make, a walk is done. -/
theorem Traversal.nil (hcalls : calls [] = []) (hdone : done [] st ran) :
    Traversal visit limit refuses calls done st ran :=
  .completes (.nil (.refl st)) hcalls.symm hdone

/-- **One call and then the others.**  When a call gives a value, the walk refuses it, or goes on
with the calls that remain. -/
theorem Traversal.cons {calls' : Value → List Value → List (List Value)} {k : Value → Eval Value}
    (hfirst : [args] <+: calls [])
    (hcalls : ∀ r rs, calls (r :: rs) = args :: calls' r rs)
    (hk : ∀ v mid,
      (∃ e, refuses v mid e ∧ k v ⟨limit, none⟩ mid = (.error e, mid)) ∨
      (∀ e, ¬ refuses v mid e) ∧ Traversal visit limit refuses (calls' v)
        (fun vs => done (⟨args, st, v, mid⟩ :: vs)) mid (k v ⟨limit, none⟩ mid)) :
    Traversal visit limit refuses calls done st ((visit args >>= k) ⟨limit, none⟩ st) := by
  -- the call gives a value, fails, or is exhausted; after a value the rest takes it or refuses it
  rcases hvisit : visit args ⟨limit, none⟩ st with ⟨v | e | _, mid⟩
  · rw [bind_of_value hvisit]
    have hbegin : ∀ {bs rs}, bs <+: calls' v rs → args :: bs <+: calls (v :: rs) := by
      intro bs rs hbs
      rw [hcalls]
      exact List.cons_prefix_cons.2 ⟨rfl, hbs⟩
    rcases hk v mid with ⟨e, hrefuses, hrun⟩ | ⟨htaken, ht⟩
    · rw [hrun]
      exact .refuses (.nil (.refl st)) hfirst hvisit hrefuses
    · -- the walk that goes on, with this call in front
      have hcons : ∀ {vs last}, Walk visit limit refuses mid vs last →
          Walk visit limit refuses st (⟨args, st, v, mid⟩ :: vs) last :=
        fun hw => .cons (.refl st) hvisit htaken hw
      generalize k v ⟨limit, none⟩ mid = ran at ht
      cases ht with
      | completes hw hargs hdone =>
        refine .completes (hcons hw) ?_ hdone
        rw [List.map_cons, List.map_cons, hcalls, hargs]
      | fails hw hargs hvisit' hending => exact .fails (hcons hw) (hbegin hargs) hvisit' hending
      | refuses hw hargs hvisit' hrefuses =>
        exact .refuses (hcons hw) (hbegin hargs) hvisit' hrefuses
  · rw [bind_of_error hvisit]
    exact .fails (.nil (.refl st)) hfirst hvisit nofun
  · rw [bind_of_exhausted hvisit]
    exact .fails (.nil (.refl st)) hfirst hvisit nofun

end Walks

/-- A walk that takes all results. -/
def never (_ : Value) (_ : State) (_ : Error) : Prop := False

section Pure

variable {visit : List Value → Eval Value} {limit : Nat} {st st' last : State} {vs : List Visit}
  {f : List Value → Value} {argss : List (List Value)} {ran : Ending Value × State}
  {done : List Visit → State → Ending Value × State → Prop}

/-- The calls of a walk whose function only computes a value. -/
theorem Walk.of_pure
    (hvisit : ∀ args ∈ argss, ∀ st', st.Adds st' →
      visit args ⟨limit, none⟩ st' = (.value (f args), st'))
    (hw : Walk visit limit never st' vs last) (hargs : ∀ v ∈ vs, v.args ∈ argss)
    (hst : st.Adds st') :
    vs.map Visit.result = (vs.map Visit.args).map f ∧ st.Adds last := by
  induction hw with
  | nil hlast => exact ⟨rfl, hst.trans hlast⟩
  | @cons st' last v vs hbefore hcall _ _ ih =>
    -- all the walk did so far is add cells, and there the callback is known
    have hv := hvisit v.args (hargs v List.mem_cons_self) v.before (hst.trans hbefore)
    rw [hcall, Prod.mk.injEq, Ending.value.injEq] at hv
    have hafter : st.Adds v.after := hv.2 ▸ hst.trans hbefore
    obtain ⟨hresults, hlast⟩ := ih (fun w hw => hargs w (List.mem_cons_of_mem v hw)) hafter
    refine ⟨?_, hlast⟩
    rw [List.map_cons, List.map_cons, List.map_cons, hv.1, hresults]

/-- **A walk with a function that only computes a value is not broken off**, and its results are
what the function computes. -/
theorem Traversal.of_pure
    (hvisit : ∀ args ∈ argss, ∀ st', st.Adds st' →
      visit args ⟨limit, none⟩ st' = (.value (f args), st'))
    (ht : Traversal visit limit never (fun _ => argss) done st ran) :
    ∃ vs last, vs.map Visit.result = argss.map f ∧ done vs last ran := by
  cases ht with
  | @completes vs last _ hw hargs hdone =>
    obtain ⟨hresults, -⟩ := hw.of_pure hvisit (fun v hv => hargs ▸ List.mem_map_of_mem hv)
      (.refl st)
    exact ⟨vs, last, hargs ▸ hresults, hdone⟩
  | @fails vs args before after ending hw hargs hcall hending =>
    -- the call that is said to fail gives a value, as all of them do
    have hmem : ∀ bs ∈ vs.map Visit.args ++ [args], bs ∈ argss := fun _ hb => hargs.subset hb
    obtain ⟨-, hbefore⟩ := hw.of_pure hvisit
      (fun v hv => hmem _ (List.mem_append_left _ (List.mem_map_of_mem hv))) (.refl st)
    have hv := hvisit args (hmem args (by simp)) before hbefore
    rw [hcall, Prod.mk.injEq] at hv
    exact absurd hv.1 (hending _)
  | refuses _ _ _ hrefuses => exact hrefuses.elim

end Pure

/-! ### The walks over lists -/

/-- The members whose results are truthy. -/
def kept {α : Type} (as : List α) (results : List Value) : List α :=
  ((as.zip results).filter fun p => p.2.isTruthy).map (·.1)

/-- What is kept of the first element, and of the rest. -/
theorem kept_cons {α : Type} (a : α) (as : List α) (r : Value) (rs : List Value) :
    kept (a :: as) (r :: rs) = if r.isTruthy then a :: kept as rs else kept as rs := by
  unfold kept
  rw [List.zip_cons_cons, List.filter_cons]
  split <;> rfl

/-- What is kept is kept in its order. -/
theorem kept_sublist {α : Type} (as : List α) (results : List Value) :
    (kept as results).Sublist as := by
  induction as generalizing results with
  | nil => exact List.Sublist.refl []
  | cons a as ih =>
    cases results with
    | nil => exact List.nil_sublist _
    | cons r rs =>
      rw [kept_cons]
      split
      · exact (ih rs).cons_cons a
      · exact (ih rs).cons a

section Lists

variable {visit : List Value → Eval Value} {limit : Nat} {st : State}
  {done : List Visit → State → Ending Value × State → Prop}

/-- A call for each element, then what is made of the results. -/
theorem traversal_mapAll (as : List Value) {finish : List Value → Eval Value}
    (hdone : ∀ vs last, vs.length = as.length →
      done vs last (finish (vs.map Visit.result) ⟨limit, none⟩ last)) :
    Traversal visit limit never (fun _ => as.map ([·])) done st
      ((mapAll (fun a => visit [a]) as >>= finish) ⟨limit, none⟩ st) := by
  induction as generalizing st finish done with
  | nil => exact .nil rfl (hdone [] st rfl)
  | cons a as ih =>
    simp only [mapAll, bind_assoc, pure_bind]
    refine .cons (List.prefix_append [[a]] _) (fun r rs => rfl) fun v mid => .inr ⟨fun _ => id, ?_⟩
    exact ih fun vs last hlength => hdone (_ :: vs) last (congrArg (· + 1) hlength)

/-- A test for each element, then what is made of those that pass. -/
theorem traversal_filterAll (as : List Value) {finish : List Value → Eval Value}
    (hdone : ∀ vs last, vs.length = as.length →
      done vs last (finish (kept as (vs.map Visit.result)) ⟨limit, none⟩ last)) :
    Traversal visit limit never (fun _ => as.map ([·])) done st
      ((filterAll (fun a => do return (← visit [a]).isTruthy) as >>= finish) ⟨limit, none⟩ st) := by
  induction as generalizing st finish done with
  | nil => exact .nil rfl (hdone [] st rfl)
  | cons a as ih =>
    simp only [filterAll, bind_assoc, pure_bind]
    -- the visit to `a` is made in any case; its result decides only what is kept
    refine .cons (List.prefix_append [[a]] _) (fun r rs => rfl) fun v mid => .inr ⟨fun _ => id, ?_⟩
    refine ih fun vs last hlength => ?_
    have hkept := hdone (⟨[a], st, v, mid⟩ :: vs) last (congrArg (· + 1) hlength)
    rwa [List.map_cons, kept_cons] at hkept

/-- A fold hands the result of each call on to the next one. -/
theorem traversal_foldAll (as : List Value) (start : Value)
    (hdone : ∀ vs last, vs.length = as.length →
      done vs last (.value ((vs.map Visit.result).getLastD start), last)) :
    Traversal visit limit never
      (fun results => (as.zip (start :: results)).map fun p => [p.1, p.2]) done st
      (foldAll (fun acc a => visit [a, acc]) start as ⟨limit, none⟩ st) := by
  induction as generalizing st start done with
  | nil => exact .nil rfl (hdone [] st rfl)
  | cons a as ih =>
    rw [foldAll]
    refine .cons (List.prefix_append [[a, start]] _) (fun r rs => rfl) fun v mid =>
      .inr ⟨fun _ => id, ?_⟩
    -- the next call gets the result of this one
    refine ih v fun vs last hlength => ?_
    have hlast := hdone (⟨[a, start], st, v, mid⟩ :: vs) last (congrArg (· + 1) hlength)
    rwa [List.map_cons, List.getLastD_cons] at hlast

end Lists

/-! ### The walks over maps -/

/-- The value is a tuple of these two. -/
def IsPair (st : State) (v key value : Value) : Prop :=
  ∃ r, v = .tuple r ∧ (st.heap.items r).toList = [key, value]

/-- Results that cannot be entries of a map: they are no pairs, or their keys contain themselves. -/
inductive Unfit (v : Value) (st : State) : Error → Prop where
  | unpaired : (∀ k x, ¬ IsPair st v k x) →
    Unfit v st (.notPair (.enum .map) (st.heap.inspect v))
  | looped {k x : Value} {kind : Kind} : IsPair st v k x → st.heap.detach k = .error kind →
    Unfit v st (.selfContainingKey kind)

section Maps

variable {visit : List Value → Eval Value} {limit : Nat} {st : State} {f : Native} {b : Bounds}
  {done : List Visit → State → Ending Value × State → Prop} {v k x : Value}

/-- A pair is read as its key and its value. -/
theorem asPair_of_isPair (h : IsPair st v k x) : asPair f v b st = (.value (k, x), st) := by
  obtain ⟨r, rfl, hr⟩ := h
  have hitems : items r b st = (.value (st.heap.items r), st) := rfl
  unfold asPair
  dsimp only
  rw [bind_of_value hitems, hr]
  rfl

/-- What is no pair is refused with its text. -/
theorem asPair_of_unpaired (h : ∀ k x, ¬ IsPair st v k x) :
    asPair f v b st = (.error (.notPair f (st.heap.inspect v)), st) := by
  cases v with
  | tuple r =>
    have hitems : items r b st = (.value (st.heap.items r), st) := rfl
    unfold asPair
    dsimp only
    rw [bind_of_value hitems]
    -- a tuple of two values would be a pair
    match hr : (st.heap.items r).toList with
    | [k, x] => exact absurd ⟨r, rfl, hr⟩ (h k x)
    | [] => rfl
    | [_] => rfl
    | _ :: _ :: _ :: _ => rfl
  | _ => rfl

/-- A value is a pair of one key and one value. -/
theorem IsPair.unique {k' x' : Value} (h : IsPair st v k x) (h' : IsPair st v k' x') :
    k' = k ∧ x' = x := by
  obtain ⟨r, rfl, hr⟩ := h
  obtain ⟨r', heq, hr'⟩ := h'
  cases heq
  rw [hr] at hr'
  cases hr'
  exact ⟨rfl, rfl⟩

/-- Between two calls the key is detached, which makes cells. -/
theorem traversal_mapPairs (ps : List (Value × Value)) (t : Table) {finish : Table → Eval Value}
    (hdone : ∀ vs last t, vs.length = ps.length → done vs last (finish t ⟨limit, none⟩ last)) :
    Traversal visit limit Unfit (fun _ => ps.map fun p => [p.1, p.2]) done st
      ((foldAll (fun t p => do
          let (k, v) ← asPair (.enum .map) (← visit [p.1, p.2])
          addEntry t (← detachKey k) v) t ps >>= finish) ⟨limit, none⟩ st) := by
  induction ps generalizing st t done with
  | nil => exact .nil rfl (hdone [] st t rfl)
  | cons p ps ih =>
    simp only [foldAll, bind_assoc]
    refine .cons (List.prefix_append [[p.1, p.2]] _) (fun r rs => rfl) fun v mid => ?_
    -- what the callback gives is refused unless it is a pair whose key can be detached
    by_cases hpair : ∃ k x, IsPair mid v k x
    · obtain ⟨k, x, hpair⟩ := hpair
      rw [bind_of_value (asPair_of_isPair hpair)]
      cases hd : mid.heap.detach k with
      | error kind =>
        exact .inl ⟨_, .looped hpair hd, bind_of_error (detachKey_of_error hd)⟩
      | ok copied =>
        obtain ⟨copy, g⟩ := copied
        refine .inr ⟨?_, ?_⟩
        · rintro e (hnone | ⟨hpair', hd'⟩)
          · exact hnone k x hpair
          · rw [(hpair.unique hpair').1, hd] at hd'
            cases hd'
        · dsimp only
          rw [bind_of_value (detachKey_of_ok hd)]
          refine .adds ⟨g, rfl, Heap.extends_of_detach hd⟩ ?_
          exact ih _ fun vs last t hlength => hdone (_ :: vs) last t (congrArg (· + 1) hlength)
    · have hunpaired : ∀ k x, ¬ IsPair mid v k x := fun k x h => hpair ⟨k, x, h⟩
      exact .inl ⟨_, .unpaired hunpaired, bind_of_error (asPair_of_unpaired hunpaired)⟩

/-- The table of the pairs whose results are truthy, each added in the state after its call. -/
def gather : Table → List (Value × Value) → List Visit → Table
  | t, p :: ps, v :: vs =>
    gather (if v.result.isTruthy then v.after.heap.insert t p.1 p.2 else t) ps vs
  | t, _, _ => t

/-- A test for each entry, then what is made of the table of those that pass. -/
theorem traversal_filterPairs (ps : List (Value × Value)) (t : Table) {finish : Table → Eval Value}
    (hdone : ∀ vs last, vs.length = ps.length → (last = st ∨ ∃ v ∈ vs, last = v.after) →
      done vs last (finish (gather t ps vs) ⟨limit, none⟩ last)) :
    Traversal visit limit never (fun _ => ps.map fun p => [p.1, p.2]) done st
      ((foldAll (fun t p => do
          if (← visit [p.1, p.2]).isTruthy then addEntry t p.1 p.2
          else return t) t ps >>= finish) ⟨limit, none⟩ st) := by
  induction ps generalizing st t done with
  | nil => exact .nil rfl (hdone [] st rfl (.inl rfl))
  | cons p ps ih =>
    simp only [foldAll, bind_assoc]
    refine .cons (List.prefix_append [[p.1, p.2]] _) (fun r rs => rfl) fun v mid =>
      .inr ⟨fun _ => id, ?_⟩
    have hstep : (if v.isTruthy then addEntry t p.1 p.2 else pure t) ⟨limit, none⟩ mid =
        (.value (if v.isTruthy then mid.heap.insert t p.1 p.2 else t), mid) := by
      split <;> rfl
    -- nothing is copied here, so the walk goes on from the very state the call left
    rw [bind_of_value hstep]
    refine ih _ fun vs last hlength hlast => hdone (⟨[p.1, p.2], st, v, mid⟩ :: vs) last
      (congrArg (· + 1) hlength) (.inr ?_)
    rcases hlast with rfl | ⟨w, hw, rfl⟩
    · exact ⟨_, List.mem_cons_self, rfl⟩
    · exact ⟨w, List.mem_cons_of_mem _ hw, rfl⟩

end Maps

/-! ### What a filter keeps of a map -/

end Native

namespace Heap

variable {h : Heap} {ps : List (Value × Value)} {p : Value × Value}

/-- The cells that are reached from the keys of the pairs. -/
def KeyCells (h : Heap) (ps : List (Value × Value)) (r : Ref) : Prop :=
  ∃ p ∈ ps, h.Reaches p.1 r

/-- The cells of the keys hold each other only. -/
theorem closed_keyCells : h.Closed (h.KeyCells ps) := by
  rintro r ⟨p, hp, q, hq, hway⟩ v hv s hs
  exact ⟨p, hp, q, hq, hway.tail ⟨v, hv, hs⟩⟩

/-- Each key is in the cells of the keys. -/
theorem in_keyCells (hp : p ∈ ps) : p.1.In (h.KeyCells ps) :=
  fun _ hr => ⟨p, hp, .self hr⟩

end Heap

namespace Native

open Eval

/-- As long as the keys are left alone, none of the pairs gets lost: they have unequal keys, so each
one that is to be kept is added behind the others. -/
theorem gather_kept {h : Heap} {K : Ref → Prop} (hclosed : h.Closed K)
    {ps : List (Value × Value)} {vs : List Visit} {t : Table} (hlength : vs.length = ps.length)
    (hkeys : ∀ p ∈ t.pairs ++ ps, p.1.In K) (hvs : ∀ v ∈ vs, h.Agree v.after.heap K)
    (hdistinct : (t.pairs ++ ps).Pairwise fun p q => h.equal q.1 p.1 = false) (ht : h.Filed t) :
    (gather t ps vs).pairs = t.pairs ++ kept ps (vs.map Visit.result) ∧
      h.Filed (gather t ps vs) := by
  induction ps generalizing vs t with
  | nil => exact ⟨(List.append_nil _).symm, ht⟩
  | cons p ps ih =>
    obtain ⟨v, vs, rfl⟩ := List.exists_cons_of_length_eq_add_one hlength
    have hlength := Nat.succ.inj hlength
    have hrest : ∀ w ∈ vs, h.Agree w.after.heap K := fun w hw => hvs w (List.mem_cons_of_mem v hw)
    rw [gather, List.map_cons, kept_cons]
    by_cases htruthy : v.result.isTruthy = true
    · rw [if_pos htruthy, if_pos htruthy]
      -- the callback has not touched the keys, so they are as different as they were
      have hagree := hvs v List.mem_cons_self
      have hp : p.1.In K := hkeys p (by simp)
      have hnew : ∀ q ∈ t.pairs, v.after.heap.equal p.1 q.1 = false := by
        intro q hq
        rw [hagree.equal_eq hclosed hp (hkeys q (List.mem_append_left _ hq))]
        exact (List.pairwise_append.1 hdistinct).2.2 q hq p List.mem_cons_self
      have hpairs : (v.after.heap.insert t p.1 p.2).pairs = t.pairs ++ [p] :=
        Heap.pairs_insert hnew
      have hsplit : (v.after.heap.insert t p.1 p.2).pairs ++ ps = t.pairs ++ p :: ps := by
        rw [hpairs, List.append_assoc, List.singleton_append]
      have hfiled : h.Filed (v.after.heap.insert t p.1 p.2) := by
        have hthere : v.after.heap.Filed t :=
          ht.agree hagree hclosed fun e he =>
            hkeys _ (List.mem_append_left _ (List.mem_map_of_mem he))
        refine hthere.insert.agree (fun r hr => (hagree r hr).symm) (hclosed.agree hagree) ?_
        intro e he
        have hmem : (e.key, e.value) ∈ t.pairs ++ p :: ps := by
          rw [← hsplit]
          exact List.mem_append_left _ (List.mem_map_of_mem he)
        exact hkeys _ hmem
      rw [← hsplit] at hkeys hdistinct
      obtain ⟨hgather, hgathered⟩ := ih hlength hkeys hrest hdistinct hfiled
      refine ⟨?_, hgathered⟩
      rw [hgather, hpairs, List.append_assoc, List.singleton_append]
    -- what is not kept leaves the table
    · rw [if_neg htruthy, if_neg htruthy]
      have hsub : (t.pairs ++ ps).Sublist (t.pairs ++ p :: ps) :=
        (List.sublist_cons_self p ps).append_left _
      exact ih hlength (fun q hq => hkeys q (hsub.subset hq)) hrest (hdistinct.sublist hsub) ht

/-- That the keys are unequal cannot be left out: of two entries whose keys have come to be equal
one gets lost. -/
theorem size_gather_equal :
    let st : State := ⟨{ cells := #[.list #[], .list #[]] }, default, 0, 0, #[]⟩
    (gather .empty [(.list 0, .atom "a"), (.list 1, .atom "b")]
      [⟨[.list 0, .atom "a"], st, .boolean true, st⟩,
        ⟨[.list 1, .atom "b"], st, .boolean true, st⟩]).size = 1 := by
  decide +kernel

/-! ### The tuples of a map's pairs -/

/-- The tuples made for the pairs are new, and hold them. -/
theorem pairs_newTuples (ps : List (Value × Value)) (st : State) :
    st.Adds { st with heap := st.heap.pushPairs ps } ∧
      List.Forall₂ (fun v p => IsPair { st with heap := st.heap.pushPairs ps } v p.1 p.2)
        (st.heap.newTuples ps) ps := by
  induction ps generalizing st with
  | nil => exact ⟨.refl st, .nil⟩
  | cons p ps ih =>
    -- the pair is the first cell that is added, so its address is the size before
    obtain ⟨⟨g, hg, hext⟩, hpairs⟩ := ih { st with heap := st.heap.push (.tuple #[p.1, p.2]) }
    have hheap : (st.heap.push (.tuple #[p.1, p.2])).pushPairs ps = g := congrArg State.heap hg
    have htuples : st.heap.newTuples (p :: ps) =
        .tuple st.heap.size :: (st.heap.push (.tuple #[p.1, p.2])).newTuples ps := by
      unfold Heap.newTuples
      rw [Heap.size_push]
      rfl
    change st.Adds { st with heap := (st.heap.push (.tuple #[p.1, p.2])).pushPairs ps } ∧ _
    rw [htuples]
    refine ⟨⟨_, rfl, (st.heap.extends_push _).trans (hheap ▸ hext)⟩, .cons ⟨_, rfl, ?_⟩ hpairs⟩
    have hcell : (st.heap.push (.tuple #[p.1, p.2])).cells[st.heap.size]? =
        some (.tuple #[p.1, p.2]) := by
      rw [Heap.cell_push, if_pos rfl]
    change (((st.heap.push (.tuple #[p.1, p.2])).pushPairs ps).items _).toList = _
    rw [hheap, g.items_of_cell (hext _ _ hcell)]
    rfl

/-! ### All walks -/

/-- The run makes a cell, and gives a reference to it. -/
def made (reference : Ref → Value) (c : Cell) (last : State) : Ending Value × State :=
  (.value (reference last.heap.size), { last with heap := last.heap.push c })

/-- What becomes of filtering a map: a new map, which holds the pairs whose results are truthy, if
the keys have been left alone and are unequal. -/
def Filtered (st : State) (ps : List (Value × Value)) (vs : List Visit) (last : State)
    (ran : Ending Value × State) : Prop :=
  ∃ t, ran = made .map (.map t) last ∧
    ((∀ v ∈ vs, st.heap.Agree v.after.heap (st.heap.KeyCells ps)) →
      (ps.Pairwise fun p q => st.heap.equal p.1 q.1 = false ∧ st.heap.equal q.1 p.1 = false) →
      t.pairs = kept ps (vs.map Visit.result) ∧ last.heap.Filed t)

/-- The walks over a list that holds `xs`. -/
structure WalksList (call : Caller) (limit : Nat) (st : State) (callback : Value) (r : Ref)
    (xs : List Value) : Prop where
  map : Traversal (call callback) limit never (fun _ => xs.map ([·]))
    (fun vs last ran => vs.length = xs.length ∧
      ran = made .list (.list (vs.map Visit.result).toArray) last) st
    (perform call limit (.enum .map) [.list r, callback] st)
  filter : Traversal (call callback) limit never (fun _ => xs.map ([·]))
    (fun vs last ran => vs.length = xs.length ∧
      ran = made .list (.list (kept xs (vs.map Visit.result)).toArray) last) st
    (perform call limit (.enum .filter) [.list r, callback] st)
  reduce : ∀ start, Traversal (call callback) limit never
    (fun results => (xs.zip (start :: results)).map fun p => [p.1, p.2])
    (fun vs last ran => vs.length = xs.length ∧
      ran = (.value ((vs.map Visit.result).getLastD start), last)) st
    (perform call limit (.enum .reduce) [.list r, start, callback] st)

/-- The walks over a map that holds the pairs, in this order. -/
structure WalksMap (call : Caller) (limit : Nat) (st : State) (callback : Value) (m : Ref)
    (ps : List (Value × Value)) : Prop where
  map : Traversal (call callback) limit Unfit (fun _ => ps.map fun p => [p.1, p.2])
    (fun vs last ran => vs.length = ps.length ∧ ∃ t, ran = made .map (.map t) last) st
    (perform call limit (.enum .map) [.map m, callback] st)
  filter : Traversal (call callback) limit never (fun _ => ps.map fun p => [p.1, p.2])
    (fun vs last ran => vs.length = ps.length ∧ Filtered st ps vs last ran) st
    (perform call limit (.enum .filter) [.map m, callback] st)
  /-- The function is given a tuple for each pair; the tuples are made before the first call. -/
  reduce : ∀ start, ∃ tuples st', st.Adds st' ∧
    List.Forall₂ (fun v p => IsPair st' v p.1 p.2) tuples ps ∧
    Traversal (call callback) limit never
      (fun results => (tuples.zip (start :: results)).map fun p => [p.1, p.2])
      (fun vs last ran => vs.length = ps.length ∧
        ran = (.value ((vs.map Visit.result).getLastD start), last)) st'
      (perform call limit (.enum .reduce) [.map m, start, callback] st)

section All

variable {call : Caller} {limit : Nat} {st : State} {callback : Value}

/-- The operations on collections walk a list in order. -/
theorem walksList (hcallable : callback.isCallable = true) (st : State) (r : Ref) :
    WalksList call limit st callback r (st.heap.items r).toList where
  map := by
    -- a callback that can be called passes the check, so the run is the walk itself
    have hrun : perform call limit (.enum .map) [.list r, callback] st =
        (mapAll (fun v => call callback [v]) (st.heap.items r).toList >>= newList)
          ⟨limit, none⟩ st := by
      unfold perform run runEnum
      simp only [hcallable, if_true]
      rfl
    rw [hrun]
    exact traversal_mapAll _ fun vs last hlength => ⟨hlength, rfl⟩
  filter := by
    have hrun : perform call limit (.enum .filter) [.list r, callback] st =
        (filterAll (fun v => do return (← call callback [v]).isTruthy)
          (st.heap.items r).toList >>= newList) ⟨limit, none⟩ st := by
      unfold perform run runEnum
      simp only [hcallable, if_true]
      rfl
    rw [hrun]
    exact traversal_filterAll _ fun vs last hlength => ⟨hlength, rfl⟩
  reduce start := by
    have hrun : perform call limit (.enum .reduce) [.list r, start, callback] st =
        foldAll (fun acc v => call callback [v, acc]) start (st.heap.items r).toList
          ⟨limit, none⟩ st := by
      unfold perform run runEnum
      simp only [hcallable, if_true]
      rfl
    rw [hrun]
    exact traversal_foldAll _ start fun vs last hlength => ⟨hlength, rfl⟩

/-- The operations on collections walk a map in the order of its keys. -/
theorem walksMap (hcallable : callback.isCallable = true) (st : State) (m : Ref) :
    WalksMap call limit st callback m (st.heap.sortedPairs m) where
  map := by
    have hrun := (lists_sortedPairs st m).map limit call callback hcallable
    change Traversal _ _ _ _ _ _ (runEnum call .map [.map m, callback] ⟨limit, none⟩ st)
    rw [hrun]
    exact traversal_mapPairs _ _ fun vs last t hlength => ⟨hlength, t, rfl⟩
  filter := by
    have hrun := (lists_sortedPairs st m).filter limit call callback hcallable
    change Traversal _ _ _ _ _ _ (runEnum call .filter [.map m, callback] ⟨limit, none⟩ st)
    rw [hrun]
    refine traversal_filterPairs _ _ fun vs last hlength hlast =>
      ⟨hlength, _, rfl, fun hvs hdistinct => ?_⟩
    have hunequal : (Table.empty.pairs ++ st.heap.sortedPairs m).Pairwise
        fun p q => st.heap.equal q.1 p.1 = false := hdistinct.imp And.right
    obtain ⟨hpairs, hfiled⟩ := gather_kept Heap.closed_keyCells hlength
      (fun p hp => Heap.in_keyCells hp) hvs hunequal (Heap.filed_withRoom _ 0)
    refine ⟨hpairs, ?_⟩
    -- the walk has ended in a state in which the keys are still as they were
    rcases hlast with rfl | ⟨v, hv, rfl⟩
    · exact hfiled
    · refine hfiled.agree (hvs v hv) Heap.closed_keyCells fun e he => ?_
      have hmem : (e.key, e.value) ∈ kept (st.heap.sortedPairs m) (vs.map Visit.result) := by
        change _ ∈ [] ++ kept _ _
        exact hpairs ▸ List.mem_map_of_mem he
      exact Heap.in_keyCells ((kept_sublist _ _).subset hmem)
  reduce start := by
    obtain ⟨hadds, hpairs⟩ := pairs_newTuples (st.heap.sortedPairs m) st
    refine ⟨_, _, hadds, hpairs, ?_⟩
    have hrun := (lists_sortedPairs st m).reduce limit call callback start hcallable
    change Traversal _ _ _ _ _ _ (runEnum call .reduce [.map m, start, callback] ⟨limit, none⟩ st)
    rw [hrun]
    unfold reducePairs
    rw [bind_of_value (pairTuples_apply _ st), ← hpairs.length_eq]
    exact traversal_foldAll _ start fun vs last hlength => ⟨hlength, rfl⟩

/-- **Walks see the collection as it was when they started.**  `Enum.map`, `Enum.filter` and
`Enum.reduce` call the function once for each element of the list, or each entry of the map in the
order of the keys, as they were at the start, and make no other calls, whatever the function does.
They stop at the first call that gives no value, with its ending; making a map of a map stops also
at the first result that is unfit for an entry.  Apart from the calls, nothing happens to the state
but that cells are added.  In the end there is a new list of the results or of the elements that are
kept, a new map of the entries that are kept, or the last result. -/
theorem perform_enum (call : Caller) (limit : Nat) (hcallable : callback.isCallable = true)
    (st : State) :
    (∀ r, WalksList call limit st callback r (st.heap.items r).toList) ∧
    ∀ m, ∃ ps, ps.Perm (st.heap.table m).pairs ∧
      (ps.Pairwise fun p q => (st.heap.order p.1 q.1).isLE = true) ∧
      WalksMap call limit st callback m ps :=
  ⟨walksList hcallable st, fun m => ⟨st.heap.sortedPairs m, st.heap.perm_sortedPairs m,
    st.heap.pairwise_isLE_sortedPairs m, walksMap hcallable st m⟩⟩

end All

/-! ### A map of two entries -/

/-- A state with a map of two entries, and a list of two elements. -/
def paired : State where
  heap.cells := #[
    .map ⟨3, [⟨.string "ab", .string "ab", .string "b"⟩,
      ⟨.string "cd", .string "cd", .string "a"⟩]⟩,
    .list #[.string "ab", .null]]
  scopes := default
  functions := 0
  depth := 0
  output := #[]

/-- The entries of the example, in order. -/
theorem sortedPairs_paired :
    paired.heap.sortedPairs 0 = [(.string "ab", .string "b"), (.string "cd", .string "a")] := by
  -- the entries are in order already
  have hsorted : (paired.heap.table 0).entries.Pairwise
      fun e f => (paired.heap.order e.key f.key).isLE = true := by decide
  unfold Heap.sortedPairs Heap.sortedEntries
  rw [List.mergeSort_of_pairwise hsorted]
  rfl

/-- A built-in function that computes a value is called like any other. -/
theorem callValue_native {f : Native} {args : List Value} {v : Value} {st : State}
    (hst : paired.Adds st)
    (hrun : ∀ st, f.run (callValue 0) args ⟨1, none⟩ st = (.value v, st)) :
    callValue 1 (.native f) args ⟨1, none⟩ st = (.value v, st) := by
  obtain ⟨g, rfl, -⟩ := hst
  exact frame_of_value (Nat.le_refl 1) (hrun _)

/-- The two keys of the example are in one order only. -/
theorem eq_of_perm_paired {ps : List (Value × Value)} (hperm : ps.Perm (paired.heap.table 0).pairs)
    (hsorted : ps.Pairwise fun p q => (paired.heap.order p.1 q.1).isLE = true) :
    ps = [(.string "ab", .string "b"), (.string "cd", .string "a")] := by
  refine List.Perm.eq_of_pairwise (fun p q hp hq hpq hqp => ?_) hsorted (by decide +kernel) hperm
  rcases List.mem_pair.1 (hperm.mem_iff.1 hp) with rfl | rfl
  · rcases List.mem_pair.1 hq with rfl | rfl
    · rfl
    · exact absurd hqp (by decide +kernel)
  · rcases List.mem_pair.1 hq with rfl | rfl
    · exact absurd hpq (by decide +kernel)
    · rfl

/-- Of the entries of the example, the key of the first one contains its value. -/
theorem callValue_contains_paired {args : List Value} {st : State}
    (hargs : args ∈ [[.string "ab", .string "b"], [.string "cd", .string "a"]])
    (hst : paired.Adds st) :
    callValue 1 (.native (.text .contains)) args ⟨1, none⟩ st =
      (.value (.boolean (paired.heap.equal (args.headD .null) (.string "ab"))), st) := by
  have hanswer : ∀ s p, Text.occursIn p.toList s.toList =
        paired.heap.equal (.string s) (.string "ab") →
      ∀ st, run (callValue 0) (.text .contains) [.string s, .string p] ⟨1, none⟩ st =
        (.value (.boolean (paired.heap.equal (.string s) (.string "ab"))), st) :=
    fun s p h st => h ▸ rfl
  refine callValue_native hst ?_
  rcases List.mem_pair.1 hargs with rfl | rfl
  · exact hanswer "ab" "b" (by decide +kernel)
  · exact hanswer "cd" "a" (by decide +kernel)

/-- The keys of the example are texts, so there are no cells that a call could have changed. -/
theorem not_keyCells_paired (r : Ref) :
    ¬ paired.heap.KeyCells [(.string "ab", .string "b"), (.string "cd", .string "a")] r := by
  rintro ⟨p, hp, q, hq, -⟩
  rcases List.mem_pair.1 hp with rfl | rfl
  · cases hq
  · cases hq

/-- The strings of the list are kept, and the entry of the map whose key contains its value. -/
theorem perform_enum_filter :
    (Value.native (.test .string)).isCallable = true ∧
      (Value.native (.text .contains)).isCallable = true ∧
      (∃ last, perform (callValue 1) 1 (.enum .filter) [.list 1, .native (.test .string)] paired =
        made .list (.list #[.string "ab"]) last) ∧
      ∃ t last, perform (callValue 1) 1 (.enum .filter) [.map 0, .native (.text .contains)] paired =
        made .map (.map t) last ∧ t.pairs = [(.string "ab", .string "b")] ∧ last.heap.Filed t := by
  have htest : (Value.native (.test .string)).isCallable = true := rfl
  have hcontains : (Value.native (.text .contains)).isCallable = true := rfl
  refine ⟨htest, hcontains, ?_, ?_⟩
  · obtain ⟨hlist, -⟩ := perform_enum (callValue 1) 1 htest paired
    have hvisit : ∀ args ∈ [[.string "ab"], [.null]], ∀ st, paired.Adds st →
        callValue 1 (.native (.test .string)) args ⟨1, none⟩ st =
          (.value (.boolean (args.all (holds .string))), st) := by
      intro args hargs st hst
      refine callValue_native hst fun st => ?_
      rcases List.mem_pair.1 hargs with rfl | rfl
      · rfl
      · rfl
    obtain ⟨vs, last, hresults, -, hrun⟩ := (hlist 1).filter.of_pure hvisit
    rw [hresults] at hrun
    exact ⟨last, hrun⟩
  · obtain ⟨-, hmap⟩ := perform_enum (callValue 1) 1 hcontains paired
    obtain ⟨ps, hperm, hsorted, hwalks⟩ := hmap 0
    obtain rfl := eq_of_perm_paired hperm hsorted
    obtain ⟨vs, last, hresults, -, t, hrun, hkept⟩ :=
      hwalks.filter.of_pure fun args hargs _ hst => callValue_contains_paired hargs hst
    obtain ⟨hpairs, hfiled⟩ := hkept (fun v hv r hr => absurd hr (not_keyCells_paired r))
      (by decide +kernel)
    have hfirst : paired.heap.equal (.string "ab") (.string "ab") = true := by decide +kernel
    have hsecond : paired.heap.equal (.string "cd") (.string "ab") = false := by decide +kernel
    rw [hresults, List.map_cons, List.map_cons, List.headD_cons, List.headD_cons, hfirst,
      hsecond] at hpairs
    exact ⟨t, last, hrun, hpairs, hfiled⟩

/-- Calling `date` gives null, unless too many calls are active. -/
theorem callValue_date (args : List Value) (limit : Nat) (st : State) :
    (callValue 1 (.native .date) args ⟨limit, none⟩ st).1 = .value .null ∨
      (callValue 1 (.native .date) args ⟨limit, none⟩ st).1 = .error (.stackOverflow limit) := by
  by_cases hdepth : limit < st.depth + 1
  · exact .inr (congrArg Prod.fst (frame_of_lt hdepth))
  · exact .inl (congrArg Prod.fst (frame_of_value (Nat.le_of_not_lt hdepth) rfl))

/-- **Not every entry is called for**, although no call fails: making a map of the two entries with
a function that gives no pairs stops after the first call. -/
theorem perform_map_unpaired :
    perform (callValue 1) 1 (.enum .map) [.map 0, .native .date] paired =
        (.error (.notPair (.enum .map) (paired.heap.inspect .null)),
          { paired with output := #[.now] }) ∧
      ¬ Traversal (callValue 1 (.native .date)) 1 never
        (fun _ => (paired.heap.sortedPairs 0).map fun p => [p.1, p.2])
        (fun _ _ ran => ∃ v, ran.1 = .value v) paired
        (perform (callValue 1) 1 (.enum .map) [.map 0, .native .date] paired) := by
  have hrun : perform (callValue 1) 1 (.enum .map) [.map 0, .native .date] paired =
      (.error (.notPair (.enum .map) (paired.heap.inspect .null)),
        { paired with output := #[.now] }) := by
    refine ((lists_sortedPairs paired 0).map 1 (callValue 1) (.native .date) rfl).trans ?_
    rw [sortedPairs_paired]
    rfl
  refine ⟨hrun, fun ht => ?_⟩
  rw [hrun] at ht
  cases ht with
  | completes _ _ hdone =>
    obtain ⟨v, hv⟩ := hdone
    cases hv
  | fails _ _ hvisit _ =>
    -- a call of `date` does not fail in this way
    rcases callValue_date _ 1 _ with hend | hend
    · rw [hvisit] at hend
      cases hend
    · rw [hvisit] at hend
      cases hend
  | refuses _ _ _ hrefuses => exact hrefuses

end Native

end AtomScript
