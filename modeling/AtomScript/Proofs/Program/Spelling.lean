import AtomScript.Program.Parser
import AtomScript.Program.Printer
import AtomScript.Proofs.Token.Scan

/-!
# The tokens of a printed expression

`Expr.tokens` says of which tokens an expression is printed.  The text of an expression that is read
only one way (`Expr.Unambiguous`) is cut into just these (`Expr.Unambiguous.scanned`): each token is
followed by a blank, or by punctuation that does not extend it.  Two places need care.  Behind a
numeral the point of a member is no decimal point, since the name of a member does not start with a
digit; and a minus is a token of another kind behind a numeral.

Unambiguous expressions come in three extents.  A *closed* one is delimited by itself, and may stand
anywhere; a negation reaches as far to the right as comparisons do, a binding as far as it can.
-/

namespace AtomScript

open Lexer Text

/-- How far an expression reaches to the right. -/
inductive Extent where
  | whole | negation | closed

namespace Expr

/-- The expressions that are read only one way: operands are closed, and open forms stand only where
their end is marked. -/
inductive Unambiguous : Extent → Expr → Prop where
  | bind {pattern value : Expr} : Unambiguous .negation pattern → Unambiguous .whole value →
    Unambiguous .whole (.bind pattern value)
  | declare {name : String} {value : Expr} : Lexeme .identifier name.toList →
    Unambiguous .whole value → Unambiguous .whole (.declare name value)
  | negation {e : Expr} : Unambiguous .negation e → Unambiguous .whole e
  | not {e : Expr} : Unambiguous .negation e → Unambiguous .negation (.not e)
  | closed {e : Expr} : Unambiguous .closed e → Unambiguous .negation e
  | identifier {name : String} : Lexeme .identifier name.toList →
    Unambiguous .closed (.identifier name)
  | atom {name : String} : Lexeme .atom (':' :: name.toList) → Unambiguous .closed (.atom name)
  /-- The numeral is digits with an optional fraction, and reads back to the number. -/
  | number {x : Number} : Lexeme .number x.literal.toList → Number.ofNumeral x.literal = x →
    Unambiguous .closed (.number x)
  | string {raw : String} : (∀ c ∈ raw.toList, c ≠ '"' ∧ c ≠ '\\' ∧ c ≠ '#') →
    Unambiguous .closed (.string raw [] [])
  | binary {op : BinaryOp} {left right : Expr} : Unambiguous .closed left →
    Unambiguous .closed right → Unambiguous .closed (.binary op left right)
  | call {callee : Expr} {args : List Expr} : Unambiguous .closed callee →
    (∀ e ∈ args, Unambiguous .whole e) → Unambiguous .closed (.call callee args)
  | member {object : Expr} {name : String} : Unambiguous .closed object →
    Lexeme .identifier name.toList →
    Unambiguous .closed (.member object (.identifier name) false)
  | index {object property : Expr} : Unambiguous .closed object → Unambiguous .whole property →
    Unambiguous .closed (.member object property true)
  | tuple {items : List Expr} : (∀ e ∈ items, Unambiguous .whole e) →
    Unambiguous .closed (.tuple items)
  | list {items : List Expr} : (∀ e ∈ items, Unambiguous .whole e) →
    Unambiguous .closed (.list items)
  | map {entries : List (Expr × Expr)} : (∀ p ∈ entries, Unambiguous .whole p.1) →
    (∀ p ∈ entries, Unambiguous .whole p.2) → Unambiguous .closed (.map entries)
  | lambda {params : List String} {body : Expr} :
    (∀ name ∈ params, Lexeme .identifier name.toList) → Unambiguous .whole body →
    Unambiguous .closed (.lambda params body)

/-! ### Tokens -/

/-- The last token of the expression is a numeral. -/
def endsInNumeral : Expr → Bool
  | number _ => true
  | not e => e.endsInNumeral
  | bind _ e => e.endsInNumeral
  | declare _ e => e.endsInNumeral
  | _ => false

end Expr

/-- The kind of the token that writes the operator, behind a numeral or not. -/
def BinaryOp.tokenKind (afterNumeral : Bool) : BinaryOp → TokenKind
  | add | multiply | divide | modulo => .binaryOperator
  | subtract => if afterNumeral then .binaryOperator else .minus
  | equal => .equal
  | notEqual => .notEqual
  | less => .lessThan
  | greater => .greaterThan
  | lessEqual => .lessThanOrEqual
  | greaterEqual => .greaterThanOrEqual
  | and => .keyword .andWord
  | or => .keyword .orWord

/-- The tokens of a word. -/
def Keyword.token (word : Keyword) : Token := .of (.keyword word) word.spelling

/-- Groups of tokens with commas between them. -/
def Token.separated (groups : List (List Token)) : List Token :=
  [Token.of .comma ","].intercalate groups

/-- One group has no comma. -/
theorem Token.separated_singleton (group : List Token) : separated [group] = group :=
  List.intercalate_singleton

/-- A comma stands between the first group and the next. -/
theorem Token.separated_cons_cons (group next : List Token) (groups : List (List Token)) :
    separated (group :: next :: groups) =
      group ++ .of .comma "," :: separated (next :: groups) := by
  unfold separated
  rw [List.intercalate_cons_cons, List.append_assoc, List.singleton_append]

namespace Expr

mutual

/-- The tokens of which the expression is printed. -/
def tokens : Expr → List Token
  | number x => [.of .number x.literal]
  | string raw _ _ => [.of .string raw]
  | identifier name => [.of .identifier name]
  | atom name => [.of .atom (":" ++ name)]
  | binary op left right =>
    .of .openParen "(" :: (left.tokens ++ .of (op.tokenKind left.endsInNumeral) op.symbol ::
      (right.tokens ++ [.of .closeParen ")"]))
  | not e => Keyword.notWord.token :: e.tokens
  | bind pattern value => pattern.tokens ++ .of .assign "=" :: value.tokens
  | declare name value =>
    Keyword.letWord.token :: .of .identifier name :: .of .assign "=" :: value.tokens
  | call callee args =>
    callee.tokens ++ .of .openParen "(" :: (Token.separated (tokensAll args) ++
      [.of .closeParen ")"])
  | member object property false => object.tokens ++ .of .dot "." :: property.tokens
  | member object property true =>
    object.tokens ++ .of .openBracket "[" :: (property.tokens ++ [.of .closeBracket "]"])
  | tuple items =>
    .of .openBrace "\x7b" :: (Token.separated (tokensAll items) ++ [.of .closeBrace "\x7d"])
  | list items =>
    .of .openBracket "[" :: (Token.separated (tokensAll items) ++ [.of .closeBracket "]"])
  | map entries =>
    .of .mapOpen "%\x7b" :: (Token.separated (tokensEntries entries) ++ [.of .closeBrace "\x7d"])
  | lambda params body =>
    Keyword.fnWord.token :: .of .openParen "(" ::
      (Token.separated (params.map fun name => [.of .identifier name]) ++ .of .closeParen ")" ::
        .of .arrow "->" :: (body.tokens ++ [Keyword.endWord.token]))

/-- The tokens of each expression. -/
def tokensAll : List Expr → List (List Token)
  | [] => []
  | e :: es => e.tokens :: tokensAll es

/-- The tokens of each entry of a map. -/
def tokensEntries : List (Expr × Expr) → List (List Token)
  | [] => []
  | (key, value) :: es => (key.tokens ++ .of .fatArrow "=>" :: value.tokens) :: tokensEntries es

end

-- text and tokens are unfolded side by side, form by form
attribute [simp] print tokens

/-- The tokens of a row of expressions, group by group. -/
theorem tokensAll_eq_map (es : List Expr) : tokensAll es = es.map tokens := by
  induction es with
  | nil => rfl
  | cons e es ih => rw [tokensAll, ih, List.map_cons]

/-- The tokens of the entries of a map, entry by entry. -/
theorem tokensEntries_eq_map (es : List (Expr × Expr)) :
    tokensEntries es = es.map fun p => p.1.tokens ++ .of .fatArrow "=>" :: p.2.tokens := by
  induction es with
  | nil => rfl
  | cons p es ih => rw [tokensEntries, ih, List.map_cons]

/-- The texts of a row of expressions, one by one. -/
theorem printAll_eq_map (es : List Expr) : printAll es = es.map print := by
  induction es with
  | nil => rfl
  | cons e es ih => rw [printAll, ih, List.map_cons]

/-- The texts of the entries of a map, one by one. -/
theorem printEntries_eq_map (es : List (Expr × Expr)) :
    printEntries es = es.map fun p => p.1.print ++ " => " ++ p.2.print := by
  induction es with
  | nil => rfl
  | cons p es ih => rw [printEntries, ih, List.map_cons]

end Expr

/-! ### Pieces of text -/

namespace Lexer

/-- The text is cut into the tokens wherever what follows is cut into tokens and extends none of
them. -/
def Cuts (text : List Char) (us : List Token) : Prop :=
  ∀ rest ts, Boundary rest → (∀ b, Scans b rest ts) → ∀ b, Scans b (text ++ rest) (us ++ ts)

variable {b : Bool} {rest : List Char} {ts : List Token}

/-- A character that neither names nor numerals go on with is a boundary. -/
theorem boundary_cons {c : Char} (hc : isNamePart c = false) (hpoint : c ≠ '.')
    (cs : List Char) : Boundary (c :: cs) where
  namePart := by
    rintro _ ⟨⟩
    exact hc
  point := by
    rintro d ds ⟨⟩
    exact absurd rfl hpoint

/-- A blank is a boundary. -/
theorem boundary_blank (cs : List Char) : Boundary (' ' :: cs) :=
  boundary_cons (isNamePart_of_isBlank (by decide)) (by decide) cs

/-- The point of a member is none of a numeral. -/
theorem boundary_point {name cs : List Char} (h : Lexeme .identifier name) :
    Boundary ('.' :: (name ++ cs)) where
  namePart := by
    rintro _ ⟨⟩
    exact isNamePart_of_mem_symbols (by decide)
  point := by
    intro d ds heq
    cases h with
    | fixed h => cases h
    -- a name does not start with a digit, so the point is not one of a numeral
    | identifier hstart _ _ =>
      cases heq
      refine Bool.eq_false_iff.2 fun hdigit => ?_
      rw [isNameStart_of_isDigit hdigit] at hstart
      cases hstart

/-- Punctuation and operators before a blank. -/
theorem Scans.fixed {kind : TokenKind} {text : String} (hkind : kind ≠ .string ∧ kind ≠ .number)
    (hfront : ∀ previous, Lexer.front previous (text.toList ++ rest) =
      .token kind text.toList rest) (hrest : Scans false rest ts) :
    Scans b (text.toList ++ rest) (.of kind text :: ts) := by
  refine Scans.lexeme hkind.1 (fun previous _ => hfront previous) ?_
  rw [beq_false_of_ne hkind.2]
  exact hrest

/-- A character of punctuation. -/
theorem Scans.punctuation {kind : TokenKind} (text : String) {c : Char} (htext : text.toList = [c])
    (hc : punctuation? c = some kind) (hrest : Scans false rest ts) :
    Scans b (text.toList ++ rest) (.of kind text :: ts) := by
  have hkind : kind ≠ .string ∧ kind ≠ .number := by
    unfold punctuation? at hc
    split at hc <;> cases hc <;> exact ⟨nofun, nofun⟩
  refine Scans.fixed hkind (fun previous => ?_) hrest
  rw [htext, List.singleton_append, front]
  simp only [hc]

/-- A punctuation mark other than the point is a boundary. -/
theorem boundary_punctuation {kind : TokenKind} {text : String} {c : Char}
    (htext : text.toList = [c]) (hc : punctuation? c = some kind) (hpoint : c ≠ '.')
    (rest : List Char) : Boundary (text.toList ++ rest) := by
  rw [htext]
  exact boundary_cons (isNamePart_of_punctuation hc) hpoint rest

/-- A piece of text before punctuation. -/
theorem Cuts.close {text : List Char} {us : List Token} (h : Cuts text us) {kind : TokenKind}
    (close : String) {c : Char} (hclose : close.toList = [c]) (hc : punctuation? c = some kind)
    (hpoint : c ≠ '.') (hrest : Scans false rest ts) (b : Bool) :
    Scans b (text ++ (close.toList ++ rest)) (us ++ .of kind close :: ts) :=
  h _ _ (boundary_punctuation hclose hc hpoint rest)
    (fun _ => Scans.punctuation close hclose hc hrest) b

/-- An operator before a blank is scanned as one token, a minus according to what came before. -/
theorem front_of_operator (op : BinaryOp) {previous : Option TokenKind}
    (h : previous = some .number ↔ b = true) (rest : List Char) :
    Lexer.front previous (op.symbol.toList ++ ' ' :: rest) =
      .token (op.tokenKind b) op.symbol.toList (' ' :: rest) := by
  cases op with
  | subtract =>
    -- only a minus is scanned differently behind a numeral
    have hkind : (if previous = some .number then TokenKind.binaryOperator else .minus) =
        BinaryOp.tokenKind b .subtract := by
      cases b with
      | true => exact if_pos (h.2 rfl)
      | false => exact if_neg fun hnumber => Bool.false_ne_true (h.1 hnumber)
    rw [← hkind]
    rfl
  | _ => rfl

/-- An operator between blanks. -/
theorem Scans.operator (op : BinaryOp) (hrest : Scans false rest ts) :
    Scans b (op.symbol.toList ++ ' ' :: rest) (.of (op.tokenKind b) op.symbol :: ts) := by
  have hkind : op.tokenKind b ≠ .string ∧ (op.tokenKind b == .number) = false := by
    cases op <;> cases b <;> exact ⟨nofun, rfl⟩
  refine Scans.lexeme hkind.1 (fun previous h => front_of_operator op h rest) ?_
  rw [hkind.2]
  exact hrest.blank

/-- A name is cut to its one token. -/
theorem cuts_name {name : String} (h : Lexeme .identifier name.toList) :
    Cuts name.toList [.of .identifier name] :=
  fun _ _ hb hrest _ => Scans.name h hb (hrest false)

/-- Pieces with commas between them. -/
theorem cuts_separated {texts : List (List Char)} {groups : List (List Token)}
    (h : List.Forall₂ Cuts texts groups) :
    Cuts (", ".toList.intercalate texts) (Token.separated groups) := by
  induction h with
  | nil => exact fun rest ts _ hrest b => hrest b
  | @cons text us texts groups hfirst htail ih =>
    cases htail with
    | nil =>
      rw [List.intercalate_singleton, Token.separated_singleton]
      exact hfirst
    | @cons text' us' texts groups hsecond htail =>
      -- a comma and a blank are scanned before the next text
      intro rest ts hb hrest b
      have hscans := ih rest ts hb hrest
      have hcomma : ∀ b, Scans b (",".toList ++ ' ' :: (", ".toList.intercalate (text' :: texts) ++
          rest)) (.of .comma "," :: (Token.separated (us' :: groups) ++ ts)) :=
        fun b => Scans.fixed ⟨nofun, nofun⟩ (fun _ => rfl) (hscans false).blank
      have hboundary : ∀ cs, Boundary (',' :: cs) :=
        boundary_cons (isNamePart_of_mem_symbols (by decide)) (by decide)
      have hall := hfirst (',' :: ' ' :: _) _ (hboundary _) hcomma b
      rw [List.intercalate_cons_cons, Token.separated_cons_cons]
      simp only [List.append_assoc, List.cons_append]
      exact hall

end Lexer

/-! ### Printed expressions -/

namespace Expr

/-- The printed expression is cut into its tokens, wherever what follows extends none of them. -/
def Scanned (e : Expr) : Prop :=
  ∀ rest ts, Boundary rest → Scans e.endsInNumeral rest ts →
    ∀ b, Scans b (e.print.toList ++ rest) (e.tokens ++ ts)

/-- An expression that is scanned is cut to its tokens. -/
theorem Scanned.cuts {e : Expr} (h : e.Scanned) : Cuts e.print.toList e.tokens :=
  fun rest ts hb hrest => h rest ts hb (hrest _)

/-- A row of expressions is cut at its commas. -/
theorem cuts_all {es : List Expr} (h : ∀ e ∈ es, e.Scanned) :
    Cuts (", ".intercalate (printAll es)).toList (Token.separated (tokensAll es)) := by
  rw [String.toList_intercalate, printAll_eq_map, tokensAll_eq_map, List.map_map]
  refine cuts_separated ?_
  rw [List.forall₂_map_left_iff, List.forall₂_map_right_iff, List.forall₂_same]
  exact fun e he => (h e he).cuts

/-- A pair of key and value. -/
theorem cuts_entry {key value : Expr} (hkey : key.Scanned) (hvalue : value.Scanned) :
    Cuts (key.print ++ " => " ++ value.print).toList
      (key.tokens ++ .of .fatArrow "=>" :: value.tokens) := by
  intro rest ts hb hrest b
  have hscans := hvalue.cuts rest ts hb hrest false
  -- the arrow is set off by blanks, so the key is cut off whatever it ends with
  have harrow : ∀ b, Scans b (' ' :: ("=>".toList ++ ' ' :: (value.print.toList ++ rest)))
      (.of .fatArrow "=>" :: (value.tokens ++ ts)) := by
    intro b
    refine Scans.blank ?_
    exact Scans.fixed ⟨nofun, nofun⟩ (fun _ => rfl) hscans.blank
  have hall := hkey.cuts _ _ (boundary_blank _) harrow b
  simp only [String.toList_append, List.append_assoc, List.cons_append]
  exact hall

/-- The entries of a map are cut at their commas. -/
theorem cuts_entries {es : List (Expr × Expr)} (hkeys : ∀ p ∈ es, p.1.Scanned)
    (hvalues : ∀ p ∈ es, p.2.Scanned) :
    Cuts (", ".intercalate (printEntries es)).toList (Token.separated (tokensEntries es)) := by
  rw [String.toList_intercalate, printEntries_eq_map, tokensEntries_eq_map, List.map_map]
  refine cuts_separated ?_
  rw [List.forall₂_map_left_iff, List.forall₂_map_right_iff, List.forall₂_same]
  exact fun p hp => cuts_entry (hkeys p hp) (hvalues p hp)

/-- A row of names is cut at its commas. -/
theorem cuts_names {names : List String} (h : ∀ name ∈ names, Lexeme .identifier name.toList) :
    Cuts (", ".intercalate names).toList
      (Token.separated (names.map fun name => [.of .identifier name])) := by
  rw [String.toList_intercalate]
  refine cuts_separated ?_
  rw [List.forall₂_map_left_iff, List.forall₂_map_right_iff, List.forall₂_same]
  exact fun name hname => cuts_name (h name hname)

/-! Each form is put together from its end, token by token. -/

section Forms

variable {e pattern value left right object property body callee : Expr} {name : String}

/-- An assignment is scanned if both sides are. -/
theorem scanned_bind (hpattern : pattern.Scanned) (hvalue : value.Scanned) :
    (Expr.bind pattern value).Scanned := by
  intro rest ts hb hrest b
  -- likewise for the equals sign
  have hequals : ∀ b, Scans b (' ' :: ("=".toList ++ ' ' :: (value.print.toList ++ rest)))
      (.of .assign "=" :: (value.tokens ++ ts)) := by
    intro b
    refine Scans.blank (Scans.fixed ⟨nofun, nofun⟩ (fun _ => rfl) ?_)
    exact (hvalue rest ts hb hrest false).blank
  have hall := hpattern.cuts _ _ (boundary_blank _) hequals b
  simp only [print, tokens, String.toList_append, List.append_assoc, List.cons_append]
  exact hall

/-- A declaration is scanned if its value is. -/
theorem scanned_declare (hname : Lexeme .identifier name.toList) (hvalue : value.Scanned) :
    (Expr.declare name value).Scanned := by
  intro rest ts hb hrest b
  -- from the end backwards: what follows the name, then the word with the name
  have hequals : Scans false (' ' :: ("=".toList ++ ' ' :: (value.print.toList ++ rest)))
      (.of .assign "=" :: (value.tokens ++ ts)) := by
    refine Scans.blank (Scans.fixed ⟨nofun, nofun⟩ (fun _ => rfl) ?_)
    exact (hvalue rest ts hb hrest false).blank
  have hlet : Scans b ("let".toList ++ ' ' :: (name.toList ++ ' ' :: ("=".toList ++ ' ' ::
      (value.print.toList ++ rest))))
      (Keyword.letWord.token :: .of .identifier name :: .of .assign "=" ::
        (value.tokens ++ ts)) := by
    refine Scans.fixed ⟨nofun, nofun⟩ (fun _ => rfl) (Scans.blank ?_)
    exact Scans.name hname (boundary_blank _) hequals
  simp only [print, tokens, String.toList_append, List.append_assoc, List.cons_append]
  exact hlet

/-- A negation is scanned if its operand is. -/
theorem scanned_not (h : e.Scanned) : (Expr.not e).Scanned := by
  intro rest ts hb hrest b
  have hnot : Scans b ("not".toList ++ ' ' :: (e.print.toList ++ rest))
      (Keyword.notWord.token :: (e.tokens ++ ts)) :=
    Scans.fixed ⟨nofun, nofun⟩ (fun _ => rfl) (h rest ts hb hrest false).blank
  simp only [print, tokens, String.toList_append, List.append_assoc, List.cons_append]
  exact hnot

/-- An atom is scanned. -/
theorem scanned_atom (hname : Lexeme .atom (':' :: name.toList)) : (Expr.atom name).Scanned := by
  intro rest ts hb hrest b
  have htext : (":" ++ name).toList = ':' :: name.toList := by
    rw [String.toList_append]
    rfl
  rw [← htext] at hname
  exact Scans.atom hname hb hrest

/-- A text without quotes and backslashes does not end a literal. -/
theorem protected_of_forall {cs : List Char} (h : ∀ c ∈ cs, c ≠ '"' ∧ c ≠ '\\' ∧ c ≠ '#') :
    Protected cs := by
  induction cs with
  | nil => exact .nil
  | cons c cs ih =>
    obtain ⟨⟨hquote, hbackslash, -⟩, hcs⟩ := List.forall_mem_cons.1 h
    exact .plain hquote hbackslash (ih hcs)

/-- A literal without quotes, backslashes and markers is scanned. -/
theorem scanned_string {raw : String} {fragments : List String} {expressions : List Expr}
    (hraw : ∀ c ∈ raw.toList, c ≠ '"' ∧ c ≠ '\\' ∧ c ≠ '#') :
    (Expr.string raw fragments expressions).Scanned := by
  intro rest ts hb hrest b
  have hall := Scans.string (b := b) (protected_of_forall hraw) hrest
  simp only [print, tokens, String.toList_append, List.append_assoc, List.cons_append] at hall ⊢
  exact hall

/-- An operation in parentheses is scanned if its operands are. -/
theorem scanned_binary (op : BinaryOp) (hleft : left.Scanned) (hright : right.Scanned) :
    (Expr.binary op left right).Scanned := by
  intro rest ts hb hrest b
  -- the kind of a minus depends on what the left operand ends in
  have hop : Scans left.endsInNumeral
      (' ' :: (op.symbol.toList ++ ' ' :: (right.print.toList ++ (")".toList ++ rest))))
      (.of (op.tokenKind left.endsInNumeral) op.symbol ::
        (right.tokens ++ .of .closeParen ")" :: ts)) := by
    refine Scans.blank (Scans.operator op ?_)
    exact hright.cuts.close ")" rfl rfl (by decide) hrest false
  have hopen : Scans b ("(".toList ++ _) (.of .openParen "(" :: _) :=
    Scans.punctuation "(" rfl rfl (hleft _ _ (boundary_blank _) hop false)
  simp only [print, tokens, String.toList_append, List.append_assoc, List.cons_append]
  exact hopen

/-- A call is scanned if the callee and the arguments are. -/
theorem scanned_call {args : List Expr} (hcallee : callee.Scanned)
    (hargs : ∀ e ∈ args, e.Scanned) : (Expr.call callee args).Scanned := by
  intro rest ts hb hrest b
  have hclose := (cuts_all hargs).close ")" rfl rfl (by decide) hrest false
  have hall := hcallee.cuts.close "(" rfl rfl (by decide) hclose b
  simp only [print, tokens, String.toList_append, List.append_assoc, List.cons_append]
  exact hall

/-- An access by name is scanned if the object is. -/
theorem scanned_member (hobject : object.Scanned) (hname : Lexeme .identifier name.toList) :
    (Expr.member object (.identifier name) false).Scanned := by
  intro rest ts hb hrest b
  -- no blank stands around the point: a name behind it starts a token of its own
  have hpoint : ∀ b, Scans b (".".toList ++ (name.toList ++ rest))
      (.of .dot "." :: .of .identifier name :: ts) :=
    fun b => Scans.punctuation "." rfl rfl (Scans.name hname hb hrest)
  have hall := hobject.cuts _ _ (boundary_point hname) hpoint b
  simp only [print, tokens, String.toList_append, List.append_assoc, List.cons_append]
  exact hall

/-- An access in brackets is scanned if the object and the key are. -/
theorem scanned_index (hobject : object.Scanned) (hproperty : property.Scanned) :
    (Expr.member object property true).Scanned := by
  intro rest ts hb hrest b
  have hclose := hproperty.cuts.close "]" rfl rfl (by decide) hrest false
  have hall := hobject.cuts.close "[" rfl rfl (by decide) hclose b
  simp only [print, tokens, String.toList_append, List.append_assoc, List.cons_append]
  exact hall

/-- A tuple is scanned if its items are. -/
theorem scanned_tuple {items : List Expr} (h : ∀ e ∈ items, e.Scanned) :
    (Expr.tuple items).Scanned := by
  intro rest ts hb hrest b
  have hclose := (cuts_all h).close "\x7d" rfl rfl (by decide) hrest false
  have hopen := Scans.punctuation (b := b) "\x7b" rfl rfl hclose
  simp only [print, tokens, String.toList_append, List.append_assoc, List.cons_append]
  exact hopen

/-- A list is scanned if its items are. -/
theorem scanned_list {items : List Expr} (h : ∀ e ∈ items, e.Scanned) :
    (Expr.list items).Scanned := by
  intro rest ts hb hrest b
  have hclose := (cuts_all h).close "]" rfl rfl (by decide) hrest false
  have hopen := Scans.punctuation (b := b) "[" rfl rfl hclose
  simp only [print, tokens, String.toList_append, List.append_assoc, List.cons_append]
  exact hopen

/-- A map is scanned if its keys and values are. -/
theorem scanned_map {entries : List (Expr × Expr)} (hkeys : ∀ p ∈ entries, p.1.Scanned)
    (hvalues : ∀ p ∈ entries, p.2.Scanned) : (Expr.map entries).Scanned := by
  intro rest ts hb hrest b
  have hclose := (cuts_entries hkeys hvalues).close "\x7d" rfl rfl (by decide) hrest
    false
  have hopen : Scans b ("%\x7b".toList ++ _) (.of .mapOpen "%\x7b" :: _) :=
    Scans.fixed ⟨nofun, nofun⟩ (fun _ => rfl) hclose
  simp only [print, tokens, String.toList_append, List.append_assoc, List.cons_append]
  exact hopen

/-- A function written in place is scanned if its body is. -/
theorem scanned_lambda {params : List String}
    (hparams : ∀ name ∈ params, Lexeme .identifier name.toList) (hbody : body.Scanned) :
    (Expr.lambda params body).Scanned := by
  intro rest ts hb hrest b
  -- from the end backwards: the word that closes, the body, the parameters
  have hend : ∀ b, Scans b (' ' :: ("end".toList ++ rest)) (Keyword.endWord.token :: ts) := by
    intro b
    refine Scans.blank (Scans.fixed ⟨nofun, nofun⟩ (fun previous => ?_) hrest)
    have hstart : isNameStart 'e' = true := by decide +kernel
    have hparts : ∀ c ∈ ['n', 'd'], isNamePart c = true :=
      List.forall_mem_cons.2 ⟨by decide +kernel, List.forall_mem_singleton.2 (by decide +kernel)⟩
    exact front_of_word hstart hparts hb previous
  have harrow : Scans false (' ' :: ("->".toList ++ ' ' :: (body.print.toList ++ ' ' ::
      ("end".toList ++ rest))))
      (.of .arrow "->" :: (body.tokens ++ Keyword.endWord.token :: ts)) := by
    refine Scans.blank (Scans.fixed ⟨nofun, nofun⟩ (fun _ => rfl) (Scans.blank ?_))
    exact hbody.cuts _ _ (boundary_blank _) hend false
  have hclose := (cuts_names hparams).close ")" rfl rfl (by decide) harrow false
  have hopen := Scans.punctuation (b := false) "(" rfl rfl hclose
  have hfn : Scans b ("fn".toList ++ ' ' :: _) (Keyword.fnWord.token :: _) :=
    Scans.fixed ⟨nofun, nofun⟩ (fun _ => rfl) hopen.blank
  simp only [print, tokens, String.toList_append, List.append_assoc, List.cons_append]
  exact hfn

end Forms

/-- **Printed expressions** are cut into their tokens. -/
theorem Unambiguous.scanned {extent : Extent} {e : Expr} (h : Unambiguous extent e) :
    e.Scanned := by
  induction h with
  | negation _ ih => exact ih
  | closed _ ih => exact ih
  | bind _ _ ihpattern ihvalue => exact scanned_bind ihpattern ihvalue
  | declare hname _ ih => exact scanned_declare hname ih
  | not _ ih => exact scanned_not ih
  | identifier hname => exact fun rest ts hb hrest b => Scans.name hname hb hrest
  | atom hname => exact scanned_atom hname
  | number hnumeral _ => exact fun rest ts hb hrest b => Scans.numeral hnumeral hb hrest
  | string hraw => exact scanned_string hraw
  | binary _ _ ihleft ihright => exact scanned_binary _ ihleft ihright
  | call _ _ ihcallee ihargs => exact scanned_call ihcallee ihargs
  | member _ hname ih => exact scanned_member ih hname
  | index _ _ ihobject ihproperty => exact scanned_index ihobject ihproperty
  | tuple _ ih => exact scanned_tuple ih
  | list _ ih => exact scanned_list ih
  | map _ _ ihkeys ihvalues => exact scanned_map ihkeys ihvalues
  | lambda hparams _ ih => exact scanned_lambda hparams ih

end Expr

end AtomScript
