import AtomScript.Proofs.Program.Refusal

/-!
# Parsed programs are well-formed

The phrases of a program are its statements and expressions, at every depth, those in strings
included.  Each phrase of a program that was read from a text is *proper* (`Phrase.Proper`):
conditionals have their clauses in order and mark the last one alone as `else`, names are names,
atoms have a name without a colon, and a string has a fragment for each of its expressions, which
stands in it.

What a phrase has to satisfy beyond its form comes from the tokens it was read from, since these
are written as their kinds demand.  So the proof goes along the derivation of the program by the
grammar, and into the texts of the markers, which have derivations of their own.
-/

namespace AtomScript

open Text

/-! ### The phrases of a program -/

/-- A statement or an expression of a program. -/
inductive Phrase where
  | stmt (s : Stmt)
  | expr (e : Expr)

namespace Phrase

/-- The phrases that a phrase is directly made of. -/
def children : Phrase → List Phrase
  | stmt (.expression e) => [expr e]
  | stmt (.conditional clauses) =>
    clauses.flatMap fun c => c.condition.toList.map expr ++ c.body.map stmt
  | stmt (.whileLoop condition body) => expr condition :: body.map stmt
  | stmt (.define _ _ body) => body.map stmt
  | stmt (.returning e) => e.toList.map expr
  | stmt .breaking | stmt .continuing => []
  | expr (.number _) | expr (.identifier _) | expr (.atom _) => []
  | expr (.string _ _ expressions) => expressions.map expr
  | expr (.binary _ left right) => [expr left, expr right]
  | expr (.not operand) => [expr operand]
  | expr (.bind pattern value) => [expr pattern, expr value]
  | expr (.declare _ value) => [expr value]
  | expr (.call callee args) => expr callee :: args.map expr
  | expr (.member object property _) => [expr object, expr property]
  | expr (.tuple items) | expr (.list items) => items.map expr
  | expr (.map entries) => entries.flatMap fun entry => [expr entry.1, expr entry.2]
  | expr (.lambda _ body) => [expr body]

/-- The second phrase is the first one, or part of it at some depth. -/
inductive Reaches : Phrase → Phrase → Prop where
  | refl {n : Phrase} : Reaches n n
  | child {n c m : Phrase} : c ∈ n.children → Reaches c m → Reaches n m

/-- The text can be read as a name: it starts like one, goes on like one, and is no reserved
word. -/
def IsName (name : String) : Prop := Lexer.Lexeme .identifier name.toList

/-- What a phrase satisfies beyond its form. -/
def Proper : Phrase → Prop
  /- There is a first clause, which has a condition.  The clauses marked as `else` are those without
  a condition, and only the last one may be such. -/
  | stmt (.conditional clauses) =>
    (∃ first rest, clauses = first :: rest ∧ first.condition ≠ none) ∧
      (∀ c ∈ clauses, c.isElse = true ↔ c.condition = none) ∧
      ∀ c ∈ clauses.dropLast, c.isElse = false
  | stmt (.define name params _) => IsName name ∧ ∀ param ∈ params, IsName param
  | expr (.identifier name) | expr (.declare name _) => IsName name
  -- the name itself is a phrase, too
  | expr (.member _ property computed) => computed = false → ∃ name, property = .identifier name
  | expr (.lambda params _) => ∀ param ∈ params, IsName param
  | expr (.atom name) => name ≠ "" ∧ ':' ∉ name.toList
  /- There are as many fragments as expressions.  Each opens and closes like a marker, and stands in
  the text of the string. -/
  | expr (.string raw fragments expressions) => fragments.length = expressions.length ∧
      ∀ fragment ∈ fragments, ['#', '{'] <+: fragment.toList ∧ ['}'] <:+ fragment.toList ∧
        fragment.toList <:+: raw.toList
  | _ => True

/-- Every phrase inside the phrase is proper. -/
def WellFormed (n : Phrase) : Prop := ∀ m, n.Reaches m → m.Proper

/-- A proper phrase of well-formed parts is well formed. -/
theorem WellFormed.of_children {n : Phrase} (hn : n.Proper) (h : ∀ c ∈ n.children, c.WellFormed) :
    n.WellFormed := by
  intro m hm
  cases hm with
  | refl => exact hn
  | child hc hm => exact h _ hc m hm

/-- The parts of a well-formed phrase are well formed. -/
theorem WellFormed.of_mem_children {n c : Phrase} (h : n.WellFormed) (hc : c ∈ n.children) :
    c.WellFormed :=
  fun m hm => h m (.child hc hm)

end Phrase

/-! ### What the tokens give -/

namespace Lexer

/-- A colon is no part of a name. -/
theorem isNamePart_colon : isNamePart ':' = false := by decide +kernel

/-- A name is not empty and made of the characters names are made of. -/
theorem Lexeme.name_inv {cs : List Char} (h : Lexeme .identifier cs) :
    cs ≠ [] ∧ ∀ c ∈ cs, isNamePart c = true := by
  cases h with
  | fixed h => cases h
  | identifier hstart hparts _ =>
    refine ⟨List.cons_ne_nil _ _, ?_⟩
    rw [List.forall_mem_cons]
    exact ⟨isNamePart_of_isNameStart hstart, hparts⟩

/-- A colon is no part of a name. -/
theorem colon_notMem {cs : List Char} (h : ∀ c ∈ cs, isNamePart c = true) : ':' ∉ cs := by
  intro hmem
  have hpart := h ':' hmem
  rw [isNamePart_colon] at hpart
  cases hpart

/-- The name of an atom is not empty and has no colon. -/
theorem Lexeme.atom_name {name : List Char} (h : Lexeme .atom (':' :: name)) :
    name ≠ [] ∧ ':' ∉ name := by
  cases h with
  | fixed h => cases h
  | @atom c cs hletter hparts =>
    have hfirst : isNamePart c = true := by
      unfold isNamePart
      rw [hletter]
      rfl
    refine ⟨List.cons_ne_nil _ _, colon_notMem ?_⟩
    rw [List.forall_mem_cons]
    exact ⟨hfirst, hparts⟩

end Lexer

namespace Token

variable {t : Token}

/-- A token that is spelled as its kind asks is a lexeme of its kind, if it is no literal. -/
theorem Spelled.lexeme (h : t.Spelled) {kind : TokenKind} (ht : t.kind = kind)
    (hkind : kind ≠ .eof) (hstring : kind ≠ .string) : Lexer.Lexeme kind t.text.toList := by
  subst ht
  have hlexeme := h hkind
  unfold written at hlexeme
  split at hlexeme
  · next heq => exact absurd heq hstring
  · exact hlexeme

/-- The text of a name is a name. -/
theorem Spelled.isName (h : t.Spelled) (ht : t.kind = .identifier) : Phrase.IsName t.text :=
  h.lexeme ht (by decide) (by decide)

end Token

namespace Template

/-- A text that ends with a brace still does when it is decoded. -/
theorem suffix_unescapeList (cs : List Char) : ['}'] <:+ unescapeList (cs ++ ['}']) := by
  fun_induction unescapeList cs with
  | case1 => exact List.suffix_refl _
  | case2 => exact ⟨['\\'], rfl⟩
  | case3 c cs ih => exact ih.trans (List.suffix_append (escaped c) _)
  | case4 c cs h₁ h₂ ih =>
    rw [List.cons_append, unescapeList_cons (ne_backslash h₁ h₂)]
    exact ih.trans (List.suffix_cons c _)

/-- A marker still opens like one when it is decoded. -/
theorem prefix_decodedMarker (inner : List Char) : ['#', '{'] <+: decodedMarker inner := by
  unfold decodedMarker marker
  rw [List.cons_append, unescapeList_cons (by decide), List.cons_append,
    unescapeList_cons (by decide)]
  exact List.prefix_append _ _

/-- A marker still closes like one when it is decoded. -/
theorem suffix_decodedMarker (inner : List Char) : ['}'] <:+ decodedMarker inner :=
  suffix_unescapeList ('#' :: '{' :: inner)

/-- The decoded marker stands in the decoded body. -/
theorem infix_unescapeList {cs : List Char} {parts : List Char × List (List Char × List Char)}
    (h : split? cs = some parts) {part : List Char × List Char} (hpart : part ∈ parts.2) :
    decodedMarker part.1 <:+: unescapeList cs := by
  obtain ⟨before, after, hsplit⟩ := List.append_of_mem hpart
  rw [unescapeList_of_split? h]
  unfold assemble
  rw [hsplit, List.flatMap_append, List.flatMap_cons]
  refine ⟨unescapeList parts.1 ++ before.flatMap fun p => unescapeList (marker p.1) ++
    unescapeList p.2, unescapeList part.2 ++ after.flatMap fun p => unescapeList (marker p.1) ++
    unescapeList p.2, ?_⟩
  simp [decodedMarker]

end Template

/-! ### Along the derivation -/

namespace Grammar

open Phrase

/-- The parameters of a function are names. -/
theorem Names.isName {ts : List Token} {names : List String} (h : Names ts names)
    (hts : ∀ t ∈ ts, t.Spelled) : ∀ name ∈ names, IsName name := by
  induction h with
  | nil => simp
  | last ht =>
    rw [List.forall_mem_singleton] at hts ⊢
    exact hts.isName ht
  | cons ht _ _ ih =>
    simp only [List.forall_mem_cons] at hts ⊢
    exact ⟨hts.1.isName ht, ih hts.2.2⟩

/-- The fragments are the markers that the string is split into. -/
theorem Holes.fragments_eq : {inners fragments : List String} → {es : List Expr} →
    Holes inners fragments es →
      fragments = inners.map fun inner => Template.unescape (Template.markerText inner)
  | _, _, _, .nil => rfl
  | _, _, _, .cons _ _ _ h => congrArg (_ :: ·) (Holes.fragments_eq h)

/-- A fragment and an expression are written for each marker. -/
theorem Holes.length_eq : {inners fragments : List String} → {es : List Expr} →
    Holes inners fragments es → fragments.length = es.length
  | _, _, _, .nil => rfl
  | _, _, _, .cons _ _ _ h => congrArg Nat.succ (Holes.length_eq h)

/-- A literal whose holes derive has one fragment for each hole, and each is a marker. -/
theorem Holes.proper {body : String} {inners fragments : List String} {es : List Expr}
    (hinners : Template.markers? body = some inners) (h : Holes inners fragments es) :
    (expr (.string (Template.unescape body) fragments es)).Proper := by
  obtain ⟨parts, hparts, rfl⟩ := Parser.inners_of_markers? hinners
  refine ⟨h.length_eq, fun fragment hmem => ?_⟩
  rw [h.fragments_eq, List.map_map] at hmem
  obtain ⟨part, hpart, heq⟩ := List.mem_map.1 hmem
  -- the fragment is the decoded marker of one of the pieces
  have htext : fragment.toList = Template.decodedMarker part.1 := by
    rw [← heq]
    simp [Template.unescape, Template.markerText, Template.decodedMarker]
  rw [htext]
  refine ⟨Template.prefix_decodedMarker _, Template.suffix_decodedMarker _, ?_⟩
  unfold Template.unescape
  rw [String.toList_ofList]
  exact Template.infix_unescapeList hparts hpart

/-- Behind a clause with a condition, only the last clause is an `else` clause. -/
theorem Clauses.isElse_dropLast : {ts : List Token} → {clauses : List Clause} →
    Clauses ts clauses → {first : Clause} → first.isElse = false →
      ∀ c ∈ (first :: clauses).dropLast, c.isElse = false
  | _, _, .finish _, _, _ => by simp
  | _, _, .otherwise _ _ _, _, hfirst => by simpa using hfirst
  | _, _, .otherwiseDo _ _ _ _, _, hfirst => by simpa using hfirst
  | _, _, .elif _ _ _ _ h, _, hfirst => by
    rw [List.dropLast_cons_of_ne_nil (List.cons_ne_nil _ _), List.forall_mem_cons]
    exact ⟨hfirst, Clauses.isElse_dropLast h rfl⟩

/-- The clauses that are marked as `else` are those without a condition. -/
theorem Clauses.isElse_iff : {ts : List Token} → {clauses : List Clause} →
    Clauses ts clauses → ∀ c ∈ clauses, c.isElse = true ↔ c.condition = none
  | _, _, .finish _ => by simp
  | _, _, .otherwise _ _ _ => by simp [Clause.isElse, Clause.condition]
  | _, _, .otherwiseDo _ _ _ _ => by simp [Clause.isElse, Clause.condition]
  | _, _, .elif _ _ _ _ h =>
    List.forall_mem_cons.2
      ⟨by simp [Clause.isElse, Clause.condition], Clauses.isElse_iff h⟩

/-- A conditional whose later clauses derive has a condition at first and an alternative, if any,
last. -/
theorem Clauses.proper {ts : List Token} {clauses : List Clause} {c : Expr} {body : List Stmt}
    (h : Clauses ts clauses) :
    (stmt (.conditional (.mk (some c) body false :: clauses))).Proper := by
  refine ⟨⟨_, _, rfl, Option.some_ne_none c⟩, ?_, h.isElse_dropLast rfl⟩
  exact List.forall_mem_cons.2 ⟨by simp [Clause.isElse, Clause.condition], h.isElse_iff⟩

/-- The phrases of a clause are well-formed. -/
def ClauseWellFormed (c : Clause) : Prop :=
  (∀ e ∈ c.condition, (expr e).WellFormed) ∧ ∀ s ∈ c.body, (stmt s).WellFormed

/-- A proper conditional of well-formed clauses is well formed. -/
theorem wellFormed_conditional {clauses : List Clause}
    (hproper : (stmt (.conditional clauses)).Proper) (h : ∀ c ∈ clauses, ClauseWellFormed c) :
    (stmt (.conditional clauses)).WellFormed := by
  refine .of_children hproper fun n hn => ?_
  obtain ⟨c, hc, hn⟩ := List.mem_flatMap.1 hn
  rcases List.mem_append.1 hn with hn | hn
  · obtain ⟨e, he, rfl⟩ := List.mem_map.1 hn
    exact (h c hc).1 e (Option.mem_toList.1 he)
  · obtain ⟨s, hs, rfl⟩ := List.mem_map.1 hn
    exact (h c hc).2 s hs

mutual

/-- Statements that derive from spelled tokens are well formed. -/
theorem Statements.wellFormed : {ts : List Token} → {ss : List Stmt} → Statements ts ss →
    (∀ t ∈ ts, t.Spelled) → ∀ s ∈ ss, (stmt s).WellFormed
  | _, _, .nil, _ => by simp
  | _, _, .separator _ h, hts => Statements.wellFormed h (List.forall_mem_cons.1 hts).2
  | _, _, .cons hs hss, hts => by
    rw [List.forall_mem_append] at hts
    rw [List.forall_mem_cons]
    exact ⟨Statement.wellFormed hs hts.1, Statements.wellFormed hss hts.2⟩

/-- A statement that derives from spelled tokens is well formed. -/
theorem Statement.wellFormed : {ts : List Token} → {s : Stmt} → Statement ts s →
    (∀ t ∈ ts, t.Spelled) → (stmt s).WellFormed
  | _, _, .expression he, hts => by
    refine .of_children trivial ?_
    exact List.forall_mem_singleton.2 (Expression.wellFormed he hts)
  | _, _, .conditional _ hc _ hbody hclauses, hts => by
    simp only [List.forall_mem_append, List.forall_mem_cons] at hts
    obtain ⟨-, hcs, -, hbs, hrest⟩ := hts
    refine wellFormed_conditional hclauses.proper (List.forall_mem_cons.2 ⟨⟨?_, ?_⟩, ?_⟩)
    -- `elif` and `if` carry a condition, so the clause is not the `else` one
    · rintro _ ⟨⟩
      exact Expression.wellFormed hc hcs
    · exact Statements.wellFormed hbody hbs
    · exact Clauses.wellFormed hclauses hrest
  | _, _, .whileLoop _ hc _ hbody _, hts => by
    simp only [List.forall_mem_append, List.forall_mem_cons] at hts
    obtain ⟨-, hcs, -, hbs, -⟩ := hts
    refine .of_children trivial (List.forall_mem_cons.2 ⟨Expression.wellFormed hc hcs, ?_⟩)
    exact List.forall_mem_map.2 (Statements.wellFormed hbody hbs)
  | _, _, .define _ hname _ hparams _ _ hbody _, hts => by
    simp only [List.forall_mem_append, List.forall_mem_cons] at hts
    obtain ⟨-, hnameSpelled, -, hps, -, -, hbs, -⟩ := hts
    refine .of_children ⟨hnameSpelled.isName hname, hparams.isName hps⟩ ?_
    exact List.forall_mem_map.2 (Statements.wellFormed hbody hbs)
  | _, _, .returnNothing _, _ => .of_children trivial (by simp [children])
  | _, _, .returnValue _ he, hts => by
    refine .of_children trivial (List.forall_mem_singleton.2 ?_)
    exact Expression.wellFormed he (List.forall_mem_cons.1 hts).2
  | _, _, .breaking _, _ => .of_children trivial (by simp [children])
  | _, _, .continuing _, _ => .of_children trivial (by simp [children])

/-- Clauses that derive from spelled tokens are well formed. -/
theorem Clauses.wellFormed : {ts : List Token} → {clauses : List Clause} → Clauses ts clauses →
    (∀ t ∈ ts, t.Spelled) → ∀ c ∈ clauses, ClauseWellFormed c
  | _, _, .finish _, _ => by simp
  | _, _, .otherwise _ hbody _, hts => by
    simp only [List.forall_mem_append, List.forall_mem_cons] at hts
    refine List.forall_mem_singleton.2 ⟨nofun, ?_⟩
    exact Statements.wellFormed hbody hts.2.1
  | _, _, .otherwiseDo _ _ hbody _, hts => by
    simp only [List.forall_mem_append, List.forall_mem_cons] at hts
    refine List.forall_mem_singleton.2 ⟨nofun, ?_⟩
    exact Statements.wellFormed hbody hts.2.2.1
  | _, _, .elif _ hc _ hbody hclauses, hts => by
    simp only [List.forall_mem_append, List.forall_mem_cons] at hts
    obtain ⟨-, hcs, -, hbs, hrest⟩ := hts
    refine List.forall_mem_cons.2 ⟨⟨?_, ?_⟩, ?_⟩
    -- an `elif` clause carries a condition as well
    · rintro _ ⟨⟩
      exact Expression.wellFormed hc hcs
    · exact Statements.wellFormed hbody hbs
    · exact Clauses.wellFormed hclauses hrest

/-- An expression that derives from spelled tokens is well formed. -/
theorem Expression.wellFormed : {ts : List Token} → {e : Expr} → Expression ts e →
    (∀ t ∈ ts, t.Spelled) → (expr e).WellFormed
  | _, _, .letting _ hname _ he, hts => by
    simp only [List.forall_mem_cons] at hts
    obtain ⟨-, hnameSpelled, -, hts⟩ := hts
    refine .of_children (hnameSpelled.isName hname) (List.forall_mem_singleton.2 ?_)
    exact Expression.wellFormed he hts
  | _, _, .binding hpattern _ he, hts => by
    simp only [List.forall_mem_append, List.forall_mem_cons] at hts
    obtain ⟨hus, -, hts⟩ := hts
    refine .of_children trivial (List.forall_mem_cons.2 ⟨Operation.wellFormed hpattern hus, ?_⟩)
    exact List.forall_mem_singleton.2 (Expression.wellFormed he hts)
  | _, _, .operation he, hts => Operation.wellFormed he hts

/-- An operation that derives from spelled tokens is well formed. -/
theorem Operation.wellFormed : {level : Parser.Level} → {ts : List Token} → {e : Expr} →
    Operation level ts e → (∀ t ∈ ts, t.Spelled) → (expr e).WellFormed
  | _, _, _, .operand he, hts => Operand.wellFormed he hts
  | _, _, _, .apply hleft _ hright, hts => by
    simp only [List.forall_mem_append, List.forall_mem_cons] at hts
    obtain ⟨hus, -, hts⟩ := hts
    refine .of_children trivial (List.forall_mem_cons.2 ⟨Operation.wellFormed hleft hus, ?_⟩)
    exact List.forall_mem_singleton.2 (Operand.wellFormed hright hts)

/-- An operand that derives from spelled tokens is well formed. -/
theorem Operand.wellFormed : {level : Parser.Level} → {ts : List Token} → {e : Expr} →
    Operand level ts e → (∀ t ∈ ts, t.Spelled) → (expr e).WellFormed
  | _, _, _, .or he, hts => Operation.wellFormed he hts
  | _, _, _, .and he, hts => Negation.wellFormed he hts
  | _, _, _, .comparison he, hts => Operation.wellFormed he hts
  | _, _, _, .sum he, hts => Operation.wellFormed he hts
  | _, _, _, .product he, hts => Unary.wellFormed he hts

/-- A negation that derives from spelled tokens is well formed. -/
theorem Negation.wellFormed : {ts : List Token} → {e : Expr} → Negation ts e →
    (∀ t ∈ ts, t.Spelled) → (expr e).WellFormed
  | _, _, .not _ he, hts => by
    refine .of_children trivial (List.forall_mem_singleton.2 ?_)
    exact Negation.wellFormed he (List.forall_mem_cons.1 hts).2
  | _, _, .operation he, hts => Operation.wellFormed he hts

/-- A signed expression that derives from spelled tokens is well formed. -/
theorem Unary.wellFormed : {ts : List Token} → {e : Expr} → Unary ts e →
    (∀ t ∈ ts, t.Spelled) → (expr e).WellFormed
  | _, _, .sign _ _, _ => .of_children trivial (by simp [children])
  | _, _, .subtract _ he _, hts => by
    refine .of_children trivial (List.forall_mem_cons.2 ⟨?_, List.forall_mem_singleton.2 ?_⟩)
    · exact .of_children trivial (by simp [children])
    · exact Unary.wellFormed he (List.forall_mem_cons.1 hts).2
  | _, _, .chain he, hts => Chain.wellFormed he hts

/-- Calls and accesses that derive from spelled tokens are well formed. -/
theorem Chain.wellFormed : {ts : List Token} → {e : Expr} → Chain ts e →
    (∀ t ∈ ts, t.Spelled) → (expr e).WellFormed
  | _, _, .primary he, hts => Primary.wellFormed he hts
  | _, _, .call he _ hargs _, hts => by
    simp only [List.forall_mem_append, List.forall_mem_cons] at hts
    obtain ⟨hus, -, hts, -⟩ := hts
    refine .of_children trivial (List.forall_mem_cons.2 ⟨Chain.wellFormed he hus, ?_⟩)
    exact List.forall_mem_map.2 (Items.wellFormed hargs hts)
  | _, _, .member he _ hname, hts => by
    simp only [List.forall_mem_append, List.forall_mem_cons] at hts
    obtain ⟨hus, -, hnameSpelled, -⟩ := hts
    refine .of_children (fun _ => ⟨_, rfl⟩) (List.forall_mem_cons.2 ⟨Chain.wellFormed he hus, ?_⟩)
    refine List.forall_mem_singleton.2 (.of_children ?_ (by simp [children]))
    exact hnameSpelled.isName hname
  | _, _, .index he _ hproperty _, hts => by
    simp only [List.forall_mem_append, List.forall_mem_cons] at hts
    obtain ⟨hus, -, hts, -⟩ := hts
    refine .of_children nofun (List.forall_mem_cons.2 ⟨Chain.wellFormed he hus, ?_⟩)
    exact List.forall_mem_singleton.2 (Expression.wellFormed hproperty hts)

/-- Items that derive from spelled tokens are well formed. -/
theorem Items.wellFormed : {ts : List Token} → {es : List Expr} → Items ts es →
    (∀ t ∈ ts, t.Spelled) → ∀ e ∈ es, (expr e).WellFormed
  | _, _, .nil, _ => by simp
  | _, _, .last he, hts => List.forall_mem_singleton.2 (Expression.wellFormed he hts)
  | _, _, .cons he _ hes, hts => by
    simp only [List.forall_mem_append, List.forall_mem_cons] at hts
    exact List.forall_mem_cons.2
      ⟨Expression.wellFormed he hts.1, Items.wellFormed hes hts.2.2⟩

/-- Entries that derive from spelled tokens are well formed, keys and values. -/
theorem Entries.wellFormed : {ts : List Token} → {es : List (Expr × Expr)} → Entries ts es →
    (∀ t ∈ ts, t.Spelled) → ∀ e ∈ es, (expr e.1).WellFormed ∧ (expr e.2).WellFormed
  | _, _, .nil, _ => by simp
  | _, _, .last hkey hvalue, hts => by
    rw [List.forall_mem_append] at hts
    exact List.forall_mem_singleton.2
      ⟨Key.wellFormed hkey hts.1, Expression.wellFormed hvalue hts.2⟩
  | _, _, .cons hkey hvalue _ hes, hts => by
    simp only [List.forall_mem_append, List.forall_mem_cons] at hts
    obtain ⟨hus, hts, -, hvs⟩ := hts
    exact List.forall_mem_cons.2
      ⟨⟨Key.wellFormed hkey hus, Expression.wellFormed hvalue hts⟩, Entries.wellFormed hes hvs⟩

/-- A key that derives from spelled tokens is well formed. -/
theorem Key.wellFormed : {ts : List Token} → {e : Expr} → Key ts e →
    (∀ t ∈ ts, t.Spelled) → (expr e).WellFormed
  | _, _, .name hname _, hts => by
    -- a key that is written as a name is an atom
    obtain ⟨hne, hparts⟩ := ((List.forall_mem_cons.1 hts).1.isName hname).name_inv
    refine .of_children ⟨fun hempty => hne ?_, Lexer.colon_notMem hparts⟩ (by simp [children])
    rw [hempty]
    rfl
  | _, _, .arrow he _, hts => Expression.wellFormed he (List.forall_mem_append.1 hts).1

/-- A closed expression that derives from spelled tokens is well formed. -/
theorem Primary.wellFormed : {ts : List Token} → {e : Expr} → Primary ts e →
    (∀ t ∈ ts, t.Spelled) → (expr e).WellFormed
  | _, _, .identifier ht, hts => by
    refine .of_children ?_ (by simp [children])
    exact (List.forall_mem_singleton.1 hts).isName ht
  | _, _, .number _, _ => .of_children trivial (by simp [children])
  -- the lexer keeps the colon in the lexeme and the parser drops it
  | _, _, .atom ht htext _, hts => by
    have hlexeme := (List.forall_mem_singleton.1 hts).lexeme ht (by decide) (by decide)
    rw [htext] at hlexeme
    obtain ⟨hne, hcolon⟩ := hlexeme.atom_name
    refine .of_children ⟨fun hempty => hne ?_, ?_⟩ (by simp [children])
    · simpa using congrArg String.toList hempty
    · rwa [String.toList_ofList]
  -- the holes were parsed as programs of their own, one expression each
  | _, _, .string _ hinners hfilled, _ => by
    refine .of_children (hfilled.proper hinners) ?_
    exact List.forall_mem_map.2 (Holes.wellFormed hfilled)
  | _, _, .group _ he _, hts => by
    simp only [List.forall_mem_append, List.forall_mem_cons] at hts
    exact Expression.wellFormed he hts.2.1
  | _, _, .tuple _ hes _, hts => by
    simp only [List.forall_mem_append, List.forall_mem_cons] at hts
    exact .of_children trivial (List.forall_mem_map.2 (Items.wellFormed hes hts.2.1))
  | _, _, .list _ hes _, hts => by
    simp only [List.forall_mem_append, List.forall_mem_cons] at hts
    exact .of_children trivial (List.forall_mem_map.2 (Items.wellFormed hes hts.2.1))
  | _, _, .map _ hes _, hts => by
    simp only [List.forall_mem_append, List.forall_mem_cons] at hts
    refine .of_children trivial fun n hn => ?_
    obtain ⟨entry, hentry, hn⟩ := List.mem_flatMap.1 hn
    have hwf := Entries.wellFormed hes hts.2.1 entry hentry
    rcases List.mem_cons.1 hn with rfl | hn
    · exact hwf.1
    · rw [List.mem_singleton.1 hn]
      exact hwf.2
  | _, _, .lambda _ _ hparams _ _ hbody _, hts => by
    simp only [List.forall_mem_append, List.forall_mem_cons] at hts
    obtain ⟨-, -, hps, -, -, hts, -⟩ := hts
    refine .of_children (hparams.isName hps) (List.forall_mem_singleton.2 ?_)
    exact Expression.wellFormed hbody hts
  | _, _, .bareLambda _ hparams _ hbody _, hts => by
    simp only [List.forall_mem_append, List.forall_mem_cons] at hts
    obtain ⟨-, hps, -, hts, -⟩ := hts
    refine .of_children (hparams.isName hps) (List.forall_mem_singleton.2 ?_)
    exact Expression.wellFormed hbody hts

/-- What stands in a marker is a text of its own, whose tokens are written as they should be. -/
theorem Holes.wellFormed : {inners fragments : List String} → {es : List Expr} →
    Holes inners fragments es → ∀ e ∈ es, (expr e).WellFormed
  | _, _, _, .nil => by simp
  | _, _, _, .cons htokens _ he hfilled => by
    have hspelled := (List.forall_mem_append.1 (Token.spelled_of_tokenize htokens)).1
    have hs := Statements.wellFormed he hspelled _ List.mem_cons_self
    exact List.forall_mem_cons.2
      ⟨hs.of_mem_children List.mem_cons_self, Holes.wellFormed hfilled⟩

end

end Grammar

/-- **Parsed programs are well-formed.**  Every phrase of a program that is read from a text is
proper, at every depth and inside the strings.  And no text is refused for an operator that is not
known. -/
theorem Program.parse_wellFormed (source : String) :
    (∀ p, Program.parse source = .ok p →
      ∀ s ∈ p, ∀ m, (Phrase.stmt s).Reaches m → m.Proper) ∧
    ∀ symbol position, Program.parse source ≠ .error (.unknownOperator symbol position) := by
  refine ⟨fun p hp => ?_, fun symbol position hp => ?_⟩
  · obtain ⟨ts, rest, hts, hdone⟩ := Program.exists_of_parse hp
    obtain ⟨read, last, rfl, -, -, hread⟩ :=
      Parser.derives_of_statements (Parser.sound _).statements hts hdone
    have hspelled := (List.forall_mem_append.1 (Token.spelled_of_tokenize hts)).1
    exact hread.wellFormed hspelled
  · cases Program.isRefusal_of_parse hp

/-- A conditional with three clauses in a function, a member and an atom in a marker, and a string
in a marker of another string. -/
theorem Program.parse_wellFormed_nested :
    let text := "def f(a) do if a do \"x #\x7bMap.fetch(a, [:k])\x7d\" " ++
      "elif not a do fn b -> b end else let c = \"#\x7b\\\"#\x7ba\x7d\\\"\x7d\" end end"
    ∃ p, Program.parse text = .ok p ∧ p.length = 1 ∧
      ∀ s ∈ p, ∀ m, (Phrase.stmt s).Reaches m → m.Proper := by
  intro text
  have hlength : (Program.parse text).map List.length = .ok 1 := by decide +kernel
  cases hp : Program.parse text with
  | error e =>
    rw [hp] at hlength
    cases hlength
  | ok p =>
    rw [hp] at hlength
    exact ⟨p, rfl, Except.ok.inj hlength, (Program.parse_wellFormed text).1 p hp⟩

end AtomScript
