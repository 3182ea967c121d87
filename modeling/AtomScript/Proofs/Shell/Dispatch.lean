import AtomScript.Proofs.Library.Sorting
import AtomScript.Shell.Command

/-!
# Which command a line runs

A command fits a line that is its word, alone or with a space and more behind it.  Of the commands
that fit, the one with the longest word is chosen, and of several with this word the one that was
registered first (`Command.Chosen`).

* `Registry.ranks_register`, `Registry.Ranks.foldl_register` — registering commands leaves the
  registry ranked: longer words come first, and words of one length in the order of registration;
* `Registry.Ranks.chosen` — so the first command of the registry that fits is the chosen one;
* `Registry.execute_chosen` — the line is left to it, unless an expression goes on behind the word.
-/

namespace AtomScript

/-! ### The words of a line -/

namespace Command

variable {σ : Type} {c d : Command σ} {line rest : String}

/-- The line is the word of the command and `rest`, which is empty or starts with a space. -/
def Leaves (c : Command σ) (line rest : String) : Prop :=
  line = c.word ++ rest ∧ (rest = "" ∨ ∃ more, rest = " " ++ more)

/-- The line is the word of the command, or the word and a space and more. -/
def Fits (c : Command σ) (line : String) : Prop :=
  ∃ rest, c.Leaves line rest

/-- What a command does with a line that is left to it: nothing, when the rest of the line goes on
with an expression. -/
def obey (c : Command σ) (rest : String) (s : σ) : Response × σ :=
  if continuesExpression (Text.trim rest) then (.notACommand, s) else c.run (Text.trim rest) s

theorem rest?_eq_some_iff {word cs ds : List Char} :
    rest? word cs = some ds ↔ cs = word ++ ds ∧ (ds = [] ∨ ∃ es, ds = ' ' :: es) := by
  unfold rest?
  constructor
  · intro h
    split at h
    · next heq =>
      cases h
      exact ⟨by rw [heq, List.append_nil], .inl rfl⟩
    · split at h
      · next hword =>
        cases h
        obtain ⟨es, hes⟩ := List.isPrefixOf_iff_prefix.1 hword
        subst hes
        refine ⟨?_, .inr ⟨es, ?_⟩⟩
        · rw [List.append_assoc, List.drop_left]
        · rw [List.append_assoc, List.drop_left]
          rfl
      · cases h
  · rintro ⟨rfl, rfl | ⟨es, rfl⟩⟩
    -- the word alone, or the word with a space behind it
    · rw [List.append_nil, if_pos rfl]
    · have hlonger : word ++ ' ' :: es ≠ word := by simp
      have hword : (word ++ [' ']).isPrefixOf (word ++ ' ' :: es) = true :=
        List.isPrefixOf_iff_prefix.2 ⟨es, by simp⟩
      rw [if_neg hlonger, if_pos hword, List.drop_left]

theorem leaves_iff :
    c.Leaves line rest ↔ rest? c.word.toList line.toList = some rest.toList := by
  have hmore : (rest = "" ∨ ∃ more, rest = " " ++ more) ↔
      (rest.toList = [] ∨ ∃ es, rest.toList = ' ' :: es) := by
    refine or_congr (by simp) ⟨?_, ?_⟩
    · rintro ⟨more, rfl⟩
      exact ⟨more.toList, by simp⟩
    · rintro ⟨es, hes⟩
      exact ⟨String.ofList es, String.toList_inj.1 (by simp [hes])⟩
  rw [rest?_eq_some_iff, Leaves, hmore, ← String.toList_inj, String.toList_append]

theorem arguments?_of_leaves (h : c.Leaves line rest) :
    c.arguments? line = some (Text.trim rest) := by
  unfold arguments?
  rw [leaves_iff.1 h, Option.map_some, String.ofList_toList]

/-- A command has arguments on a line exactly if it fits the line. -/
theorem arguments?_eq_none_iff : c.arguments? line = none ↔ ¬ c.Fits line := by
  constructor
  · rintro hnone ⟨rest, hrest⟩
    rw [arguments?_of_leaves hrest] at hnone
    cases hnone
  · intro hnot
    unfold arguments?
    cases hrest : rest? c.word.toList line.toList with
    | none => rfl
    | some cs =>
      refine absurd ⟨String.ofList cs, leaves_iff.2 ?_⟩ hnot
      rw [hrest, String.toList_ofList]

/-- Of the commands that fit the line, this one has the longest word; among those with a word of the
same length it comes first. -/
def Chosen (cs : List (Command σ)) (line : String) (c : Command σ) : Prop :=
  c.Fits line ∧ ∃ before after, cs = before ++ c :: after ∧
    (∀ d ∈ before, d.Fits line → d.word.utf8ByteSize < c.word.utf8ByteSize) ∧
    ∀ d ∈ after, d.Fits line → d.word.utf8ByteSize ≤ c.word.utf8ByteSize

end Command

/-! ### The order of the registry -/

/-- `bs` are the members of `as`, larger ones first; those of one size come in the order in which
they come in `as`. -/
structure Registry.Ranks {α : Type} (size : α → Nat) (as bs : List α) : Prop where
  perm : bs.Perm as
  ordered : bs.Pairwise fun a b => size b ≤ size a
  stable : ∀ n, bs.filter (fun a => size a == n) = as.filter fun a => size a == n

namespace Registry

variable {α β σ : Type} {size : α → Nat} {as bs : List α} {r cs : List (Command σ)}
  {c : Command σ} {line : String}

theorem ranks_nil : Ranks size [] [] := ⟨.refl _, .nil, fun _ => rfl⟩

/-- Adding a member at the end and sorting again keeps the ranking. -/
theorem Ranks.append (h : Ranks size as bs) (a : α) :
    Ranks size (as ++ [a]) ((bs ++ [a]).mergeSort fun a b => size b ≤ size a) := by
  have trans : ∀ a b c, decide (size b ≤ size a) = true → decide (size c ≤ size b) = true →
      decide (size c ≤ size a) = true := by
    intro a b c hab hbc
    rw [decide_eq_true_eq] at *
    exact Nat.le_trans hbc hab
  have total : ∀ a b, (decide (size b ≤ size a) || decide (size a ≤ size b)) = true := by
    intro a b
    rw [Bool.or_eq_true, decide_eq_true_eq, decide_eq_true_eq]
    exact Nat.le_total _ _
  -- sorting again moves the new element behind all that are as long, for the sort is stable
  refine ⟨(List.mergeSort_perm _ _).trans (h.perm.append_right [a]), ?_, fun n => ?_⟩
  · exact (List.pairwise_mergeSort trans total (bs ++ [a])).imp of_decide_eq_true
  · rw [filter_mergeSort trans total, List.filter_append, List.filter_append, h.stable n]
    intro a b ha hb
    rw [decide_eq_true_eq, eq_of_beq ha, eq_of_beq hb]

theorem Ranks.map {f : β → α} {as bs : List β} (h : Ranks (fun b => size (f b)) as bs) :
    Ranks size (as.map f) (bs.map f) where
  perm := h.perm.map f
  ordered := List.pairwise_map.2 h.ordered
  stable n := by
    rw [List.filter_map, List.filter_map]
    exact congrArg (List.map f) (h.stable n)

/-- **Registering a command keeps the registry ranked.** -/
theorem ranks_register (h : Ranks (fun c : Command σ => c.word.utf8ByteSize) cs r)
    (c : Command σ) : Ranks (fun c => c.word.utf8ByteSize) (cs ++ [c]) (register r c) :=
  h.append c

/-- The registry stays ranked over any sequence of registrations. -/
theorem Ranks.foldl_register (h : Ranks (fun c : Command σ => c.word.utf8ByteSize) cs r)
    (ds : List (Command σ)) :
    Ranks (fun c => c.word.utf8ByteSize) (cs ++ ds) (ds.foldl register r) := by
  induction ds generalizing cs r with
  | nil => rwa [List.append_nil]
  | cons d ds ih =>
    have hds := ih (ranks_register h d)
    rwa [List.append_assoc] at hds

theorem ranks_registered (cs : List (Command σ)) :
    Ranks (fun c => c.word.utf8ByteSize) cs (cs.foldl register []) :=
  ranks_nil.foldl_register cs

/-- **The first command that fits is the chosen one.** -/
theorem Ranks.chosen {before after : List (Command σ)}
    (h : Ranks (fun c => c.word.utf8ByteSize) cs (before ++ c :: after)) (hc : c.Fits line)
    (hbefore : ∀ d ∈ before, ¬ d.Fits line) : Command.Chosen cs line c := by
  -- what fits is in the registry, and not in front of the command
  have hlongest : ∀ d ∈ cs, d.Fits line → d.word.utf8ByteSize ≤ c.word.utf8ByteSize := by
    intro d hd hfits
    rcases List.mem_append.1 (h.perm.mem_iff.2 hd) with hd | hd
    · exact absurd hfits (hbefore d hd)
    · rcases List.mem_cons.1 hd with rfl | hd
      · exact Nat.le_refl _
      · exact (List.pairwise_cons.1 (List.pairwise_append.1 h.ordered).2.1).1 d hd
  -- the words of its length are registered in the order in which the registry has them
  have hstable := (h.stable c.word.utf8ByteSize).symm
  rw [List.filter_append, List.filter_cons, if_pos (beq_self_eq_true _),
    List.filter_eq_append_iff] at hstable
  obtain ⟨front, back, rfl, hfront, hback⟩ := hstable
  obtain ⟨between, rest, rfl, hbetween, -, -⟩ := List.filter_eq_cons_iff.1 hback
  refine ⟨hc, front ++ between, rest, by rw [List.append_assoc], fun d hd hfits => ?_,
    fun d hd => hlongest d (by simp [hd])⟩
  refine Nat.lt_of_le_of_ne (hlongest d ?_ hfits) fun hsize => ?_
  · rcases List.mem_append.1 hd with hd | hd <;> simp [hd]
  · rcases List.mem_append.1 hd with hd | hd
    · have hmem : d ∈ before.filter fun a => a.word.utf8ByteSize == c.word.utf8ByteSize := by
        rw [← hfront]
        exact List.mem_filter.2 ⟨hd, beq_iff_eq.2 hsize⟩
      exact hbefore d (List.mem_filter.1 hmem).1 hfits
    · exact hbetween d hd (beq_iff_eq.2 hsize)

/-! ### Running a line -/

/-- No command fits: the line is none. -/
theorem execute_of_not_fits (h : ∀ c ∈ r, ¬ c.Fits line) (s : σ) :
    execute r line s = (.notACommand, s) := by
  have hnone : r.findSome? (fun c => (c.arguments? line).map fun args => (c, args)) = none :=
    List.findSome?_eq_none_iff.2 fun c hc => by
      rw [Command.arguments?_eq_none_iff.2 (h c hc), Option.map_none]
  unfold execute
  rw [hnone]

/-- The line is left to the first command that fits. -/
theorem execute_of_leaves {before after : List (Command σ)} {rest : String}
    (hc : c.Leaves line rest) (hbefore : ∀ d ∈ before, ¬ d.Fits line) (s : σ) :
    execute (before ++ c :: after) line s = c.obey rest s := by
  have hfirst : (before ++ c :: after).findSome?
      (fun c => (c.arguments? line).map fun args => (c, args)) = some (c, Text.trim rest) := by
    refine List.findSome?_eq_some_iff.2 ⟨before, c, after, rfl, ?_, fun d hd => ?_⟩
    · rw [Command.arguments?_of_leaves hc, Option.map_some]
    · rw [Command.arguments?_eq_none_iff.2 (hbefore d hd), Option.map_none]
  unfold execute Command.obey
  rw [hfirst]

/-- **A line is left to the chosen command.**  After any sequence of registrations, the words are
listed by their lengths, longest first, and those of one length in the order of registration.  If no
command fits a line, the line is none, and nothing happens.  Otherwise it is left to the command
with the longest word that fits, the first of them, with what follows the word, trimmed; when that
goes on with an expression, the line is no command either, and nothing happens. -/
theorem execute_chosen (cs : List (Command σ)) (line : String) (s : σ) :
    Ranks String.utf8ByteSize (cs.map (·.word)) (words (cs.foldl register [])) ∧
    (((∀ c ∈ cs, ¬ c.Fits line) ∧ execute (cs.foldl register []) line s = (.notACommand, s)) ∨
      ∃ c rest, Command.Chosen cs line c ∧ c.Leaves line rest ∧
        execute (cs.foldl register []) line s =
          if Command.continuesExpression (Text.trim rest) then (.notACommand, s)
          else c.run (Text.trim rest) s) := by
  have hranks := ranks_registered cs
  refine ⟨hranks.map, ?_⟩
  by_cases hfits : ∃ c ∈ cs, c.Fits line
  · classical
    -- the first command of the registry that fits is the one that was chosen
    obtain ⟨d, hd, hfits⟩ := hfits
    obtain ⟨c, hfirst⟩ : ∃ c, (cs.foldl register []).find? (fun c => c.Fits line) = some c :=
      Option.isSome_iff_exists.1
        (List.find?_isSome.2 ⟨d, hranks.perm.mem_iff.2 hd, decide_eq_true hfits⟩)
    obtain ⟨hc, before, after, hsplit, hbefore⟩ := List.find?_eq_some_iff_append.1 hfirst
    have hbefore : ∀ d ∈ before, ¬ d.Fits line := by
      intro d hd
      simpa using hbefore d hd
    obtain ⟨rest, hrest⟩ := of_decide_eq_true hc
    rw [hsplit] at hranks ⊢
    exact .inr ⟨c, rest, hranks.chosen ⟨rest, hrest⟩ hbefore, hrest,
      execute_of_leaves hrest hbefore s⟩
  · refine .inl ⟨fun c hc hfit => hfits ⟨c, hc, hfit⟩, execute_of_not_fits (fun c hc hfit => ?_) s⟩
    exact hfits ⟨c, hranks.perm.mem_iff.1 hc, hfit⟩

end Registry

end AtomScript
