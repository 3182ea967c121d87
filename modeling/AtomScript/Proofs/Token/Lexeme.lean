import AtomScript.Token.Lexer
import Mathlib.Data.List.TakeWhile

/-!
# What tokens look like

`Lexeme kind cs` says that the characters `cs` are a token of the given kind, as they stand in a
text: operators, punctuation and reserved words have fixed spellings, atoms, names and numerals are
told by the characters they are made of, and a string is a body between quotes, in which every quote
is protected.

* `Lexer.lexeme_of_front` — the lexer reads nothing else as a token;
* `Token.written` — the characters of a token; of a string the token itself keeps only the body.
-/

namespace AtomScript

/-- The spellings of the kinds that have fixed ones. -/
def TokenKind.spellings : TokenKind → List String
  | openParen => ["("] | closeParen => [")"]
  | openBrace => ["\x7b"] | closeBrace => ["\x7d"]
  | openBracket => ["["] | closeBracket => ["]"] | mapOpen => ["%\x7b"]
  | comma => [","] | dot => ["."] | colon => [":"] | semicolon => [";"]
  | binaryOperator => ["+", "-", "*", "/", "%"] | minus => ["-"]
  | arrow => ["->"] | fatArrow => ["=>"] | assign => ["="]
  | equal => ["=="] | notEqual => ["!="] | lessThan => ["<"] | greaterThan => [">"]
  | lessThanOrEqual => ["<="] | greaterThanOrEqual => [">="]
  | keyword word => [word.spelling]
  | number | string | atom | identifier | eof => []

namespace Lexer

open Text

/-- No quote in the body of a string ends the string: each follows a backslash that protects it. -/
inductive Protected : List Char → Prop where
  | nil : Protected []
  | plain {c : Char} {cs : List Char} : c ≠ '"' → c ≠ '\\' → Protected cs → Protected (c :: cs)
  | pair {c : Char} {cs : List Char} : Protected cs → Protected ('\\' :: c :: cs)

/-- The characters of a token of the given kind. -/
inductive Lexeme : TokenKind → List Char → Prop where
  | fixed {kind : TokenKind} {cs : List Char} : String.ofList cs ∈ kind.spellings → Lexeme kind cs
  | atom {c : Char} {cs : List Char} : isLetter c = true → (∀ d ∈ cs, isNamePart d = true) →
    Lexeme .atom (':' :: c :: cs)
  | string {body : List Char} : Protected body → Lexeme .string ('"' :: body ++ ['"'])
  | integer {c : Char} {cs : List Char} : c.isDigit = true → (∀ d ∈ cs, d.isDigit = true) →
    Lexeme .number (c :: cs)
  | decimal {c d : Char} {cs ds : List Char} : c.isDigit = true → (∀ e ∈ cs, e.isDigit = true) →
    d.isDigit = true → (∀ e ∈ ds, e.isDigit = true) → Lexeme .number (c :: cs ++ '.' :: d :: ds)
  | identifier {c : Char} {cs : List Char} : isNameStart c = true →
    (∀ d ∈ cs, isNamePart d = true) → Keyword.ofText? (String.ofList (c :: cs)) = none →
    Lexeme .identifier (c :: cs)

/-! ### The lexer reads lexemes -/

theorem lexeme_of_punctuation {c : Char} {kind : TokenKind} (h : punctuation? c = some kind) :
    Lexeme kind [c] := by
  refine .fixed ?_
  unfold punctuation? at h
  split at h <;> cases h <;> decide

theorem lexeme_of_digraph {c d : Char} {kind : TokenKind} (h : digraph? c d = some kind) :
    Lexeme kind [c, d] := by
  refine .fixed ?_
  unfold digraph? at h
  split at h <;> cases h <;> decide

theorem lexeme_of_monograph {previous : Option TokenKind} {c : Char} {kind : TokenKind}
    (h : monograph? previous c = some kind) : Lexeme kind [c] := by
  refine .fixed ?_
  unfold monograph? at h
  split at h
  · -- the minus, which is one of two kinds
    rw [Option.some.injEq] at h
    subst h
    split <;> decide
  all_goals cases h <;> decide

theorem protected_of_stringBody {cs body rest : List Char}
    (h : stringBody cs = some (body, rest)) : Protected body := by
  fun_induction stringBody cs generalizing body rest with
  | case1 => cases h
  | case2 cs =>
    cases h
    exact .nil
  | case3 => cases h
  | case4 c cs b r hb ih =>
    cases h
    exact .pair (ih hb)
  | case5 => cases h
  | case6 c cs hquote hlast hbackslash b r hb ih =>
    cases h
    refine .plain (fun hc => hquote hc) (fun hc => ?_) (ih hb)
    -- a backslash protects what follows it, or nothing follows it
    cases cs with
    | nil => exact hlast hc rfl
    | cons d ds => exact hbackslash d ds hc rfl
  | case7 => cases h

theorem lexeme_of_numeral {c : Char} {cs lexeme rest : List Char} {kind : TokenKind}
    (hc : c.isDigit = true) (h : numeral c cs = .token kind lexeme rest) : Lexeme kind lexeme := by
  have hdigits : ∀ d ∈ cs.takeWhile Char.isDigit, d.isDigit = true :=
    fun d hd => List.mem_takeWhile_imp hd
  unfold numeral fraction at h
  split at h
  next frac after heq =>
  cases h
  split at heq
  · next d ds _ =>
    -- a point belongs to the numeral only before a digit
    by_cases hd : d.isDigit = true
    · rw [if_pos hd] at heq
      cases heq
      exact .decimal hc hdigits hd fun e he => List.mem_takeWhile_imp he
    · rw [if_neg hd] at heq
      cases heq
      rw [List.append_nil]
      exact .integer hc hdigits
  · cases heq
    rw [List.append_nil]
    exact .integer hc hdigits

theorem lexeme_of_word {c : Char} {cs lexeme rest : List Char} {kind : TokenKind}
    (hc : isNameStart c = true) (h : word c cs = .token kind lexeme rest) : Lexeme kind lexeme := by
  unfold word at h
  dsimp only at h
  split at h
  · next w hw =>
    cases h
    refine .fixed (List.mem_singleton.2 ?_)
    have hspelling := List.find?_some hw
    exact (eq_of_beq hspelling).symm
  · next hw =>
    cases h
    exact .identifier hc (fun d hd => List.mem_takeWhile_imp hd) hw

/-- **Whatever the lexer finds at the front of a text is a lexeme of its kind.** -/
theorem lexeme_of_front {previous : Option TokenKind} {cs lexeme rest : List Char}
    {kind : TokenKind} (h : front previous cs = .token kind lexeme rest) : Lexeme kind lexeme := by
  cases cs with
  | nil => cases h
  | cons c cs =>
    -- one case for each class of tokens, in the order in which the lexer tries them
    rw [front] at h
    split at h
    · next k hk =>
      cases h
      exact lexeme_of_punctuation hk
    · split at h
      · next k hk =>
        obtain ⟨d, hd, hk⟩ := Option.bind_eq_some_iff.1 hk
        obtain ⟨ds, rfl⟩ := List.head?_eq_some_iff.1 hd
        cases h
        exact lexeme_of_digraph hk
      · split at h
        · next hatom =>
          rw [Bool.and_eq_true, beq_iff_eq, Option.any_eq_true] at hatom
          obtain ⟨rfl, d, hd, hletter⟩ := hatom
          obtain ⟨ds, rfl⟩ := List.head?_eq_some_iff.1 hd
          cases h
          have hpart : isNamePart d = true := by
            unfold isNamePart
            rw [hletter]
            rfl
          rw [List.takeWhile_cons_of_pos hpart]
          exact .atom hletter fun e he => List.mem_takeWhile_imp he
        · split at h
          · next k hk =>
            cases h
            exact lexeme_of_monograph hk
          · split at h
            · next hquote =>
              split at h
              · next body rest' hbody =>
                cases h
                rw [eq_of_beq hquote]
                exact .string (protected_of_stringBody hbody)
              · cases h
            · split at h
              · next hdigit => exact lexeme_of_numeral hdigit h
              · split at h
                · next hstart => exact lexeme_of_word hstart h
                · cases h

theorem Lexeme.kind_ne_eof {kind : TokenKind} {cs : List Char} (h : Lexeme kind cs) :
    kind ≠ .eof := by
  rintro rfl
  cases h with
  | fixed h => cases h

theorem Lexeme.atom_inv {cs : List Char} (h : Lexeme .atom cs) :
    ∃ c name, cs = ':' :: c :: name ∧ isLetter c = true := by
  cases h with
  | fixed h => cases h
  | atom hletter _ => exact ⟨_, _, rfl, hletter⟩

end Lexer

/-! ### The characters of a token -/

/-- The characters of a token as they stand in the text. -/
def Token.written (t : Token) : List Char :=
  match t.kind with
  | .string => '"' :: t.text.toList ++ ['"']
  | _ => t.text.toList

/-- The token that is made of a lexeme is written as the lexeme. -/
theorem Lexer.written_of_lexeme {kind : TokenKind} {cs : List Char} (h : Lexeme kind cs)
    (p : Position) : (Token.mk kind (tokenText kind cs) p).written = cs := by
  unfold Token.written tokenText
  cases h with
  | string hbody => simp
  | fixed hmem =>
    -- no kind with a fixed spelling is the kind of strings
    cases kind with
    | string => cases hmem
    | _ => exact String.toList_ofList
  | _ => exact String.toList_ofList

end AtomScript
