import AtomScript.Proofs.Program.Grammar
import AtomScript.Proofs.Shell.Dispatch
import AtomScript.Proofs.Token.Scan
import AtomScript.Shell.Interaction
import Mathlib.Data.List.Nodup

/-!
# Words of commands as names in expressions

A line on which an operator follows the word of a command is meant to be a program text in which the
word is a name.  Two things have to agree for that: what the lexer reads as the first token behind
the word, and what the shell looks for there (`Command.continuesExpression`).  The shell looks at
the first character that is not blank, and at the characters up to the next blank.

* `Command.continuesExpression_iff` — the shell sees the operator, unless it is a slash, a word that
  something is joined to, or behind a comment (`Command.Sees`);
* `Shell.execute_operator` — when it sees the operator, the line is run as a program text; otherwise
  the command is run.
-/

namespace AtomScript

/-! ### Trimmed text -/

namespace Text

/-- Trimming takes blanks off the front, and then blanks off the end. -/
theorem exists_trimBlanks_append (cs : List Char) :
    ∃ blanks, (∀ c ∈ blanks, isBlank c = true) ∧
      cs.dropWhile isBlank = trimBlanks cs ++ blanks := by
  refine ⟨((cs.dropWhile isBlank).reverse.takeWhile isBlank).reverse, fun c hc => ?_, ?_⟩
  · exact List.mem_takeWhile_imp (List.mem_reverse.1 hc)
  · rw [trimBlanks, ← List.reverse_append, List.takeWhile_append_dropWhile, List.reverse_reverse]

/-- What is trimmed starts where the blanks in front end. -/
theorem head?_trimBlanks (cs : List Char) :
    (trimBlanks cs).head? = (cs.dropWhile isBlank).head? := by
  obtain ⟨blanks, hblanks, hdrop⟩ := exists_trimBlanks_append cs
  cases htrim : trimBlanks cs with
  | cons c ds => rw [hdrop, htrim, List.cons_append, List.head?_cons, List.head?_cons]
  | nil =>
    -- nothing but blanks is left, and the first character is none
    rw [htrim, List.nil_append] at hdrop
    cases blanks with
    | nil => rw [hdrop]
    | cons c blanks =>
      have hc := List.head?_dropWhile_not isBlank cs
      rw [hdrop, List.head?_cons] at hc
      exact absurd (hblanks c List.mem_cons_self) (by simpa using hc)

/-- The first word is not touched by trimming the end. -/
theorem takeWhile_trimBlanks (cs : List Char) :
    (trimBlanks cs).takeWhile (fun c => !isBlank c) =
      (cs.dropWhile isBlank).takeWhile fun c => !isBlank c := by
  obtain ⟨blanks, hblanks, hdrop⟩ := exists_trimBlanks_append cs
  have hstop : blanks.takeWhile (fun c => !isBlank c) = [] := by
    cases blanks with
    | nil => rfl
    | cons c blanks => rw [List.takeWhile_cons_of_neg (by simp [hblanks c List.mem_cons_self])]
  rw [hdrop, List.takeWhile_append, hstop, List.append_nil]
  split
  · next hall => exact (List.takeWhile_prefix _).eq_of_length hall
  · rfl

end Text

/-! ### What the shell sees -/

/-- The token is `=` or writes a binary operator. -/
def Token.IsOperator (t : Token) : Prop :=
  t.kind = .assign ∨ ∃ level op, Grammar.Operator level t op

namespace Command

open Text

/-- The rest of a line, in which the lexer finds the operator `t` first and `tail` behind it, shows
the operator to the shell: no comment comes before it, it is no slash, and if it is a word, a blank
or the end of the line follows. -/
structure Sees (rest : String) (t : Token) (tail : List Char) : Prop where
  uncommented : (rest.toList.dropWhile isBlank).head? ≠ some '#'
  notSlash : t.text ≠ "/"
  apart : t.text = "and" ∨ t.text = "or" → ∀ c, tail.head? = some c → isBlank c = true

/-- What the shell looks at: a first character, and a first word. -/
theorem continuesExpression_trim (rest : String) :
    continuesExpression (trim rest) =
      (((rest.toList.dropWhile isBlank).head?.any fun c => operatorStarts.contains c) ||
        String.ofList ((rest.toList.dropWhile isBlank).takeWhile fun c => !isBlank c) == "and" ||
        String.ofList ((rest.toList.dropWhile isBlank).takeWhile fun c => !isBlank c) == "or") := by
  unfold continuesExpression firstWord trim
  rw [String.toList_ofList, head?_trimBlanks, takeWhile_trimBlanks]

/-- A first character that starts neither an operator nor a word `and` or `or` shows that no
expression goes on. -/
theorem continuesExpression_of_head {rest : String} {c : Char}
    (hhead : (rest.toList.dropWhile isBlank).head? = some c) (hblank : isBlank c = false)
    (hc : c ∉ 'a' :: 'o' :: operatorStarts) : continuesExpression (trim rest) = false := by
  obtain ⟨cs, hcs⟩ := List.head?_eq_some_iff.1 hhead
  simp only [List.mem_cons, not_or] at hc
  obtain ⟨ha, ho, hstarts⟩ := hc
  rw [continuesExpression_trim, hcs, List.head?_cons, List.takeWhile_cons_of_pos (by simp [hblank])]
  -- neither word of an operator starts with this character
  have hword : ∀ s : String, s.toList.head? ≠ some c →
      (String.ofList (c :: cs.takeWhile fun c => !isBlank c) == s) = false := by
    intro s hs
    refine beq_false_of_ne ?_
    rintro rfl
    exact hs (by rw [String.toList_ofList, List.head?_cons])
  have hcontains : operatorStarts.contains c = false := by
    rw [Bool.eq_false_iff]
    exact fun h => hstarts (List.contains_iff_mem.1 h)
  rw [hword "and" (by simpa using Ne.symm ha), hword "or" (by simpa using Ne.symm ho),
    Option.any_some, hcontains]
  rfl

/-- Without a comment in front, the gap before the first token is made of blanks. -/
theorem splitTrivia_of_uncommented {cs : List Char}
    (h : (cs.dropWhile isBlank).head? ≠ some '#') :
    (Lexer.splitTrivia false cs).2 = cs.dropWhile isBlank := by
  induction cs with
  | nil => rfl
  | cons c cs ih =>
    -- a blank is passed over; any other character is not the start of a comment
    by_cases hblank : isBlank c = true
    · have hhash : (c == '#') = false := by
        refine beq_false_of_ne ?_
        rintro rfl
        cases hblank
      rw [List.dropWhile_cons_of_pos hblank] at h ⊢
      simp only [Lexer.splitTrivia, hblank, hhash]
      exact ih h
    · rw [List.dropWhile_cons_of_neg hblank, List.head?_cons] at h
      have hhash : (c == '#') = false := beq_false_of_ne fun hc => h (congrArg some hc)
      rw [List.dropWhile_cons_of_neg hblank]
      simp only [Lexer.splitTrivia, hblank, hhash]
      rfl

variable {rest : String} {t : Token} {cur : Lexer.Cursor}

/-- An operator that the lexer reads first stands behind the gap, as it is written. -/
theorem splitTrivia_of_first
    (hfirst : (Lexer.Cursor.ofList rest.toList).next = (.ok t, cur)) (hop : t.IsOperator) :
    (Lexer.splitTrivia false rest.toList).2 = t.text.toList ++ cur.rest ∧
      (t.text = "=" ∨ ∃ op : BinaryOp, t.text = op.symbol) := by
  have hkind : t.kind ≠ .eof ∧ t.kind ≠ .string := by
    rcases hop with hassign | ⟨level, op, hop⟩
    · rw [hassign]
      exact ⟨nofun, nofun⟩
    · have hkind := hop.kind
      refine ⟨fun heof => ?_, fun hstring => ?_⟩
      · rw [heof] at hkind
        cases hkind
      · rw [hstring] at hkind
        cases hkind
  -- the first token was scanned from the text behind the blanks
  rcases Lexer.Cursor.front_of_next (congrArg Prod.fst hfirst) with
    ⟨heof, -⟩ | ⟨-, lexeme, tail, hfront⟩
  · exact absurd heof hkind.1
  · have hlexeme := Lexer.lexeme_of_front hfront
    have htext : t.text = String.ofList lexeme ∧ cur.rest = tail := by
      rw [Lexer.Cursor.next_of_front hfront] at hfirst
      obtain ⟨ht, rfl⟩ := Prod.mk.inj hfirst
      have htoken : Lexer.tokenText t.kind lexeme = t.text := congrArg Token.text (Except.ok.inj ht)
      refine ⟨?_, rfl⟩
      rw [← htoken]
      unfold Lexer.tokenText
      split
      · next hstring => exact absurd hstring hkind.2
      · rfl
    -- the text is the lexeme itself, since an operator is no literal
    refine ⟨?_, ?_⟩
    · rw [htext.1, htext.2, String.toList_ofList]
      exact (Lexer.front_token_append hfront).symm
    · rcases hop with hassign | ⟨level, op, hop⟩
      · rw [hassign] at hlexeme
        cases hlexeme with
        | fixed hmem => exact .inl (htext.1.trans (List.mem_singleton.1 hmem))
      · exact .inr ⟨op, hop.text⟩

/-- An operator is a slash or a word, or it starts with a character that the shell knows. -/
theorem operator_cases {text : String} (h : text = "=" ∨ ∃ op : BinaryOp, text = op.symbol) :
    text = "/" ∨ (text = "and" ∨ text = "or") ∨
      ∃ c ∈ operatorStarts, text.toList.head? = some c := by
  -- all operators but division and the two words start with a character of the list
  rcases h with rfl | ⟨op, rfl⟩
  · exact .inr (.inr ⟨'=', by decide, rfl⟩)
  · cases op with
    | divide => exact .inl rfl
    | and => exact .inr (.inl (.inl rfl))
    | or => exact .inr (.inl (.inr rfl))
    | add => exact .inr (.inr ⟨'+', by decide, rfl⟩)
    | subtract => exact .inr (.inr ⟨'-', by decide, rfl⟩)
    | multiply => exact .inr (.inr ⟨'*', by decide, rfl⟩)
    | modulo => exact .inr (.inr ⟨'%', by decide, rfl⟩)
    | equal => exact .inr (.inr ⟨'=', by decide, rfl⟩)
    | notEqual => exact .inr (.inr ⟨'!', by decide, rfl⟩)
    | less => exact .inr (.inr ⟨'<', by decide, rfl⟩)
    | lessEqual => exact .inr (.inr ⟨'<', by decide, rfl⟩)
    | greater => exact .inr (.inr ⟨'>', by decide, rfl⟩)
    | greaterEqual => exact .inr (.inr ⟨'>', by decide, rfl⟩)

/-- The words among the operators have no blanks, and do not start like the other operators. -/
theorem word_facts {text : String} (h : text = "and" ∨ text = "or") :
    (∀ c ∈ text.toList, (!isBlank c) = true) ∧ text ≠ "/" ∧
      ∃ c, text.toList.head? = some c ∧ operatorStarts.contains c = false := by
  rcases h with rfl | rfl
  · exact ⟨List.all_eq_true.1 rfl, by decide, 'a', rfl, by decide⟩
  · exact ⟨List.all_eq_true.1 rfl, by decide, 'o', rfl, by decide⟩

/-- A word stands alone if what is joined to it is empty. -/
theorem isWord_append_iff {text : String} (h : text = "and" ∨ text = "or") (cs : List Char) :
    (String.ofList (text.toList ++ cs) = "and" ∨ String.ofList (text.toList ++ cs) = "or") ↔
      cs = [] := by
  rcases h with rfl | rfl
  · simp [← String.toList_inj]
  · simp [← String.toList_inj]

theorem takeWhile_eq_nil_iff_head? (cs : List Char) :
    cs.takeWhile (fun c => !isBlank c) = [] ↔ ∀ c, cs.head? = some c → isBlank c = true := by
  cases cs with
  | nil => simp
  | cons c cs => simp [List.takeWhile_cons]

/-- **The shell takes an expression to go on exactly where it sees the operator.** -/
theorem continuesExpression_iff
    (hfirst : (Lexer.Cursor.ofList rest.toList).next = (.ok t, cur)) (hop : t.IsOperator) :
    continuesExpression (trim rest) = true ↔ Sees rest t cur.rest := by
  obtain ⟨hsplit, htext⟩ := splitTrivia_of_first hfirst hop
  by_cases hcomment : (rest.toList.dropWhile isBlank).head? = some '#'
  · rw [continuesExpression_of_head hcomment (by decide) (by decide)]
    exact ⟨nofun, fun h => absurd hcomment h.uncommented⟩
  -- from here on the operator is the first thing that is not blank
  rw [splitTrivia_of_uncommented hcomment] at hsplit
  rcases operator_cases htext with hslash | hword | ⟨c, hc, hhead⟩
  · have hhead : (rest.toList.dropWhile isBlank).head? = some '/' := by
      rw [hsplit, hslash]
      rfl
    rw [continuesExpression_of_head hhead (by decide) (by decide)]
    exact ⟨nofun, fun h => absurd hslash h.notSlash⟩
  · -- the first word is the operator and what is joined to it
    obtain ⟨hsolid, hnotSlash, c, hhead, hc⟩ := word_facts hword
    rw [continuesExpression_trim, hsplit, List.takeWhile_append_of_pos hsolid, List.head?_append,
      hhead, Option.some_or, Option.any_some, hc, Bool.false_or, Bool.or_eq_true, beq_iff_eq,
      beq_iff_eq, isWord_append_iff hword, takeWhile_eq_nil_iff_head?]
    exact ⟨fun h => ⟨hcomment, hnotSlash, fun _ => h⟩, fun h => h.apart hword⟩
  · have hcontains : operatorStarts.contains c = true := List.contains_iff_mem.2 hc
    rw [continuesExpression_trim, hsplit, List.head?_append, hhead, Option.some_or, Option.any_some,
      hcontains]
    refine ⟨fun _ => ⟨hcomment, ?_, ?_⟩, fun _ => rfl⟩
    · intro hslash
      rw [hslash] at hhead
      cases hhead
      exact absurd hc (by decide)
    · intro hword
      obtain ⟨-, -, d, hd, hnot⟩ := word_facts hword
      rw [hhead, Option.some.injEq] at hd
      rw [← hd, hcontains] at hnot
      cases hnot

end Command

/-! ### The commands of the shell -/

namespace Shell

variable {c d : Command Shell} {rest : String}

/-- The registry holds the commands of the shell. -/
theorem ranks_registry : Registry.Ranks (fun c => c.word.utf8ByteSize)
    [⟨"help", runHelp⟩, ⟨"quit", runQuit⟩, ⟨"exit", runQuit⟩, ⟨"watch", runWatch⟩, ⟨"env", runEnv⟩,
      ⟨"reset", runReset⟩] registry :=
  Registry.ranks_registered _

/-- The words of the commands are different, and are single words. -/
theorem nodup_words :
    (registry.map (·.word)).Nodup ∧ ∀ w ∈ registry.map (·.word), ' ' ∉ w.toList := by
  have hperm := ranks_registry.perm.map (·.word)
  refine ⟨hperm.nodup_iff.2 (by decide), fun w hw => ?_⟩
  have hall : ∀ w ∈ ["help", "quit", "exit", "watch", "env", "reset"], ' ' ∉ w.toList := by decide
  exact hall w (hperm.mem_iff.1 hw)

/-- No command takes back that the line was one. -/
theorem run_ne_notACommand (hc : c ∈ registry) (args : String) (sh : Shell) :
    (c.run args sh).1 ≠ .notACommand := by
  have hmem := ranks_registry.perm.mem_iff.1 hc
  simp only [List.mem_cons, List.not_mem_nil, or_false] at hmem
  rcases hmem with rfl | rfl | rfl | rfl | rfl | rfl
  · exact nofun
  · exact nofun
  · exact nofun
  -- two commands look at their arguments first, and no answer of theirs is that one
  · change (runWatch args sh).1 ≠ _
    unfold runWatch
    split <;> exact nofun
  · change (runEnv args sh).1 ≠ _
    unfold runEnv
    split
    · exact nofun
    · split <;> exact nofun
  · exact nofun

/-- Behind the word of one command and a space, no other command fits. -/
theorem eq_of_fits (hc : c ∈ registry) (hd : d ∈ registry)
    (hfits : d.Fits (c.word ++ " " ++ rest)) : d = c := by
  obtain ⟨hnodup, hspace⟩ := nodup_words
  -- commands have no space in them, so the text up to the first space tells them apart
  have hc' := hspace c.word (List.mem_map_of_mem hc)
  have hd' := hspace d.word (List.mem_map_of_mem hd)
  have hone : ∀ w : String, ' ' ∉ w.toList → ∀ cs,
      (w.toList ++ ' ' :: cs).takeWhile (· != ' ') = w.toList := by
    intro w hw cs
    refine (Lexer.span_of_head (fun c hc => ?_) (fun c hc => ?_)).1
    · rw [bne_iff_ne]
      rintro rfl
      exact hw hc
    · cases hc
      rfl
  obtain ⟨more, hline, hmore⟩ := hfits
  have hlist := congrArg String.toList hline
  simp only [String.toList_append] at hlist
  refine List.inj_on_of_nodup_map hnodup hd hc (String.toList_inj.1 ?_)
  rcases hmore with rfl | ⟨after, rfl⟩
  · -- the word of a command would have the space in it
    refine absurd ?_ hd'
    simp only [String.toList_empty, List.append_nil] at hlist
    rw [← hlist]
    simp
  · have htake := congrArg (List.takeWhile (· != ' ')) hlist
    simpa [hone c.word hc', hone d.word hd'] using htake.symm

/-- A line with the word of a command and a space is left to this command. -/
theorem execute_word (hc : c ∈ registry) (rest : String) (sh : Shell) :
    registry.execute (c.word ++ " " ++ rest) sh = c.obey rest sh := by
  obtain ⟨before, after, hsplit, hnot⟩ := List.eq_append_cons_of_mem hc
  -- no command before this one fits, for it would be this one
  have hbefore : ∀ d ∈ before, ¬ d.Fits (c.word ++ " " ++ rest) := by
    intro d hd hfits
    have hmem : d ∈ registry := by
      rw [hsplit]
      exact List.mem_append_left _ hd
    exact hnot (eq_of_fits hc hmem hfits ▸ hd)
  have hleaves : c.Leaves (c.word ++ " " ++ rest) (" " ++ rest) :=
    ⟨String.append_assoc, .inr ⟨rest, rfl⟩⟩
  have htrim : Text.trim (" " ++ rest) = Text.trim rest := by
    unfold Text.trim Text.trimBlanks
    rw [String.toList_append]
    rfl
  rw [hsplit, Registry.execute_of_leaves hleaves hbefore]
  unfold Command.obey
  rw [htrim]

/-- What becomes of a line that is run as a program text. -/
def evaluate (fuel : Nat) (line : String) (sh : Shell) : Reply × Shell :=
  let (outcome, session) := sh.session.runLine fuel line
  let reply := match outcome with
    | .value vs => .values vs
    | .error e => .failure e
    | .exhausted => .exhausted
  (reply, { sh with session := session })

theorem handle_of_notACommand {line : String} {sh : Shell}
    (h : registry.execute line sh = (.notACommand, sh)) (fuel : Nat) :
    sh.handle fuel line = sh.evaluate fuel line := by
  unfold handle evaluate
  rw [h]
  dsimp only
  rcases sh.session.runLine fuel line with ⟨vs | e | _, session⟩
  · rfl
  · rfl
  · rfl

/-- **Words of commands can be names in expressions, where the shell sees the operator.**  Let an
operator be the first token behind the word of a command and a space.  If it is no slash, no comment
comes before it, and nothing is joined to it in case it is a word, then the line is no command,
nothing happens to the session, and the line is run as a program text.  Otherwise the command is
run. -/
theorem execute_operator {w rest : String} {t : Token} {cur : Lexer.Cursor}
    (hw : w ∈ registry.words) (hfirst : (Lexer.Cursor.ofList rest.toList).next = (.ok t, cur))
    (hop : t.IsOperator) (sh : Shell) :
    (Command.Sees rest t cur.rest →
      registry.execute (w ++ " " ++ rest) sh = (.notACommand, sh) ∧
      ∀ fuel, sh.handle fuel (w ++ " " ++ rest) = sh.evaluate fuel (w ++ " " ++ rest)) ∧
    (¬ Command.Sees rest t cur.rest →
      ∃ c ∈ registry, c.word = w ∧
        registry.execute (w ++ " " ++ rest) sh = c.run (Text.trim rest) sh ∧
        (c.run (Text.trim rest) sh).1 ≠ .notACommand) := by
  obtain ⟨c, hc, rfl⟩ := List.mem_map.1 hw
  have hsees := Command.continuesExpression_iff hfirst hop
  have hexecute := execute_word hc rest sh
  unfold Command.obey at hexecute
  -- what the list of operators sees decides which way the registry goes
  refine ⟨fun h => ?_, fun h => ?_⟩
  · rw [if_pos (hsees.2 h)] at hexecute
    exact ⟨hexecute, handle_of_notACommand hexecute⟩
  · rw [if_neg (mt hsees.1 h)] at hexecute
    exact ⟨c, hc, rfl, hexecute, run_ne_notACommand hc _ _⟩

/-- The line `reset  or (x)` is run as a program text, and the line `reset or(x)` is obeyed. -/
theorem execute_operator_reset :
    registry.execute "reset  or (x)" default = (.notACommand, default) ∧
      ∃ c ∈ registry, c.word = "reset" ∧
        registry.execute "reset or(x)" default = c.run "or(x)" default := by
  have hw : "reset" ∈ registry.words := (ranks_registry.perm.map (·.word)).mem_iff.2 (by decide)
  have hop : ∀ p, (⟨.keyword .orWord, "or", p⟩ : Token).IsOperator :=
    fun p => .inr ⟨.or, .or, rfl, rfl, by decide⟩
  have happart : (Lexer.Cursor.ofList " or (x)".toList).next =
      (.ok ⟨.keyword .orWord, "or", ⟨1, 2⟩⟩,
        ⟨" (x)".toList, ⟨1, 4⟩, some (.keyword .orWord)⟩) := rfl
  have hjoined : (Lexer.Cursor.ofList "or(x)".toList).next =
      (.ok ⟨.keyword .orWord, "or", ⟨1, 1⟩⟩,
        ⟨"(x)".toList, ⟨1, 3⟩, some (.keyword .orWord)⟩) := rfl
  refine ⟨((execute_operator hw happart (hop _) default).1 ⟨by decide, by decide, ?_⟩).1, ?_⟩
  · intro _ c hc
    cases hc
    rfl
  · obtain ⟨c, hc, hword, hrun, -⟩ := (execute_operator hw hjoined (hop _) default).2 fun h =>
      absurd (h.apart (.inr rfl) '(' rfl) (by decide)
    exact ⟨c, hc, hword, hrun⟩

end Shell

end AtomScript
