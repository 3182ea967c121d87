import AtomScript.Proofs.Eval.Logic
import AtomScript.Proofs.Scope.Basic
import AtomScript.Session

/-!
# The scopes that a session starts with

There is one scope, the global one, and its bindings are the built-in names with their values, all
of them constants.
-/

namespace AtomScript

/-- The built-in values are plain: none is an aggregate, or a function made by a program. -/
theorem isPlain_builtins : ∀ b ∈ builtins, b.2.isPlain = true := by decide +kernel

namespace ScopeTree

variable {t : ScopeTree} {s o : ScopeId} {name : String}

/-! ### Binding many constants -/

/-- The tree with constants bound in one of its scopes. -/
def bindAll (t : ScopeTree) (o : ScopeId) (bs : List (String × Value)) : ScopeTree :=
  bs.foldl (fun u b => u.bind o b.1 ⟨b.2, true⟩) t

section BindAll

variable {bs : List (String × Value)}

theorem size_bindAll : (t.bindAll o bs).size = t.size := by
  induction bs generalizing t with
  | nil => rfl
  | cons b bs ih => exact ih.trans (t.size_bind _ _ _)

theorem scope_bindAll_of_ne (hs : s ≠ o) : (t.bindAll o bs).scope s = t.scope s := by
  induction bs generalizing t with
  | nil => rfl
  | cons b bs ih =>
    refine ih.trans ?_
    rw [scope_bind, if_neg fun h => hs h.1.symm]

theorem find?_bindAll_of_notMem (h : ∀ b ∈ bs, b.1 ≠ name) :
    ((t.bindAll o bs).scope s).find? name = (t.scope s).find? name := by
  induction bs generalizing t with
  | nil => rfl
  | cons b bs ih =>
    have hne : b.1 ≠ name := h b List.mem_cons_self
    refine (ih fun c hc => h c (List.mem_cons_of_mem b hc)).trans ?_
    rw [find?_scope_bind, if_neg fun hcon => hne hcon.2]

/-- Different names do not get in each other's way. -/
theorem find?_bindAll_of_mem (ho : o < t.size) (hnodup : (bs.map (·.1)).Nodup)
    {b : String × Value} (hb : b ∈ bs) :
    ((t.bindAll o bs).scope o).find? b.1 = some ⟨b.2, true⟩ := by
  induction bs generalizing t with
  | nil => cases hb
  | cons c bs ih =>
    rw [List.map_cons, List.nodup_cons] at hnodup
    -- the binding lasts, for the names that are bound after it are others
    rcases List.mem_cons.1 hb with rfl | hb
    · have hlast : ∀ c ∈ bs, c.1 ≠ b.1 := fun c hc heq =>
        hnodup.1 (heq ▸ List.mem_map_of_mem hc)
      refine (find?_bindAll_of_notMem hlast).trans ?_
      rw [find?_scope_bind, if_pos ⟨⟨rfl, ho⟩, rfl⟩]
    · exact ih (t.size_bind _ _ _ ▸ ho) hnodup.2 hb

end BindAll

theorem addGlobal_eq (t : ScopeTree) : t.addGlobal = t.addRoot.bindAll t.size builtins := rfl

/-! ### The global scope -/

theorem globalScopes_eq :
    globalScopes = ScopeTree.empty.addRoot.bindAll globalScope builtins := rfl

theorem scope_addRoot_empty (s : ScopeId) : ScopeTree.empty.addRoot.scope s = .bare [] := by
  unfold addRoot
  rw [scope_push]
  split
  · rfl
  · exact scope_of_size_le _ (Nat.zero_le _)

theorem size_globalScopes : globalScopes.size = 1 :=
  size_bindAll

theorem find?_globalScopes {b : String × Value} (hb : b ∈ builtins) :
    (globalScopes.scope globalScope).find? b.1 = some ⟨b.2, true⟩ := by
  have hnodup : (builtins.map (·.1)).Nodup := by decide +kernel
  exact find?_bindAll_of_mem (by decide) hnodup hb

theorem find?_globalScopes_of_ne (hs : s ≠ globalScope) :
    (globalScopes.scope s).find? name = none := by
  rw [globalScopes_eq, scope_bindAll_of_ne hs, scope_addRoot_empty, Scope.find?_bare]

/-- Nothing is bound but the built-in names. -/
theorem mem_builtins_of_find?_globalScopes {b : Binding}
    (hb : (globalScopes.scope s).find? name = some b) : (name, b.value) ∈ builtins := by
  -- a name that is not built in is bound nowhere, and a built-in one only in the global scope
  by_cases hname : ∀ c ∈ builtins, c.1 ≠ name
  · rw [globalScopes_eq, find?_bindAll_of_notMem hname, scope_addRoot_empty,
      Scope.find?_bare] at hb
    cases hb
  · obtain ⟨c, hc, rfl⟩ : ∃ c ∈ builtins, c.1 = name := by simpa using hname
    by_cases hs : s = globalScope
    · rw [hs, find?_globalScopes hc, Option.some.injEq] at hb
      exact hb ▸ hc
    · rw [find?_globalScopes_of_ne hs] at hb
      cases hb

end ScopeTree

end AtomScript
