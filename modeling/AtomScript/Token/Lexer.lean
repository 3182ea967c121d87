import AtomScript.Error
import AtomScript.Text.Letter
import AtomScript.Text.Blank

/-!
# Cutting a source text into tokens

Blanks and comments (from `#` to the end of the line) separate tokens.  At any other place `front`
says what stands there: the longest token of the first class that applies, a character that starts
no token, or a string without its closing quote.

A `Cursor` is a place in a text, with the kind of the token before it: a minus is an operator when
it follows a numeral, and a sign or an operator to be decided by the grammar otherwise.
`Cursor.next` reads one token; it can be asked again after an error and after the end.

* `front_token_append` — a lexeme and the rest make up the text;
* `front_token_ne_nil` — a lexeme is never empty, so `tokenize` ends.
-/

namespace AtomScript

namespace Lexer

open Text

/-! ### What separates tokens -/

/-- The leading blanks and comments, and what follows them. -/
def splitTrivia (inComment : Bool) : List Char → List Char × List Char
  | [] => ([], [])
  | c :: cs =>
    if inComment then
      let (gap, rest) := splitTrivia (c != '\n') cs
      (c :: gap, rest)
    else if isBlank c || c == '#' then
      let (gap, rest) := splitTrivia (c == '#') cs
      (c :: gap, rest)
    else ([], c :: cs)

theorem splitTrivia_append (b : Bool) (cs : List Char) :
    (splitTrivia b cs).1 ++ (splitTrivia b cs).2 = cs := by
  induction cs generalizing b with
  | nil => rfl
  | cons c cs ih =>
    simp only [splitTrivia]
    split
    · simp [ih]
    · split <;> simp [ih]

theorem splitTrivia_length_le (b : Bool) (cs : List Char) :
    (splitTrivia b cs).2.length ≤ cs.length := by
  have h := congrArg List.length (splitTrivia_append b cs)
  simp only [List.length_append] at h
  omega

/-! ### The classes of tokens -/

/-- The rest of a string after its opening quote: what stands before the closing quote, and what
follows that.  A backslash protects the next character. -/
def stringBody : List Char → Option (List Char × List Char)
  | [] => none
  | '"' :: cs => some ([], cs)
  | '\\' :: [] => none
  | '\\' :: c :: cs =>
    match stringBody cs with
    | some (body, rest) => some ('\\' :: c :: body, rest)
    | none => none
  | c :: cs =>
    match stringBody cs with
    | some (body, rest) => some (c :: body, rest)
    | none => none

/-- A fraction: a point and digits, when a digit follows the point. -/
def fraction (cs : List Char) : List Char × List Char :=
  match cs with
  | '.' :: d :: ds =>
    if d.isDigit then
      ('.' :: d :: ds.takeWhile Char.isDigit, ds.dropWhile Char.isDigit)
    else ([], cs)
  | _ => ([], cs)

/-- What stands at the front of a text that starts with no blank or comment. -/
inductive Front where
  | finished
  | token (kind : TokenKind) (lexeme rest : List Char)
  | unrecognized (c : Char)
  | unterminated
  deriving DecidableEq, Inhabited

/-- The tokens of one fixed character, apart from those that a second one may extend. -/
def punctuation? (c : Char) : Option TokenKind :=
  match c with
  | '(' => some .openParen
  | ')' => some .closeParen
  | '{' => some .openBrace
  | '}' => some .closeBrace
  | '[' => some .openBracket
  | ']' => some .closeBracket
  | ',' => some .comma
  | '.' => some .dot
  | ';' => some .semicolon
  | '+' | '*' | '/' => some .binaryOperator
  | _ => none

/-- The tokens of two fixed characters. -/
def digraph? (c d : Char) : Option TokenKind :=
  match c, d with
  | '-', '>' => some .arrow
  | '%', '{' => some .mapOpen
  | '=', '=' => some .equal
  | '=', '>' => some .fatArrow
  | '!', '=' => some .notEqual
  | '<', '=' => some .lessThanOrEqual
  | '>', '=' => some .greaterThanOrEqual
  | _, _ => none

/-- The tokens of one character that may also start a longer one. -/
def monograph? (previous : Option TokenKind) (c : Char) : Option TokenKind :=
  match c with
  | '-' => some (if previous = some .number then .binaryOperator else .minus)
  | '%' => some .binaryOperator
  | '=' => some .assign
  | '<' => some .lessThan
  | '>' => some .greaterThan
  | ':' => some .colon
  | _ => none

/-- A name or a reserved word, from its first character on. -/
def word (c : Char) (cs : List Char) : Front :=
  let lexeme := c :: cs.takeWhile isNamePart
  let rest := cs.dropWhile isNamePart
  match Keyword.ofText? (String.ofList lexeme) with
  | some w => .token (.keyword w) lexeme rest
  | none => .token .identifier lexeme rest

/-- A numeral, from its first digit on. -/
def numeral (c : Char) (cs : List Char) : Front :=
  let (frac, rest) := fraction (cs.dropWhile Char.isDigit)
  .token .number (c :: cs.takeWhile Char.isDigit ++ frac) rest

/-- What the first characters of a text amount to. -/
def front (previous : Option TokenKind) : List Char → Front
  | [] => .finished
  | c :: cs =>
    match punctuation? c with
    | some kind => .token kind [c] cs
    | none =>
      match cs.head?.bind (digraph? c) with
      | some kind => .token kind (c :: cs.take 1) (cs.drop 1)
      | none =>
        if c == ':' && cs.head?.any isLetter then
          .token .atom (c :: cs.takeWhile isNamePart) (cs.dropWhile isNamePart)
        else
          match monograph? previous c with
          | some kind => .token kind [c] cs
          | none =>
            if c == '"' then
              match stringBody cs with
              | some (body, rest) => .token .string (c :: body ++ ['"']) rest
              | none => .unterminated
            else if c.isDigit then numeral c cs
            else if isNameStart c then word c cs
            else .unrecognized c

/-- The text that a token of the given kind carries. -/
def tokenText (kind : TokenKind) (lexeme : List Char) : String :=
  match kind with
  | .string => String.ofList lexeme.tail.dropLast
  | _ => String.ofList lexeme

/-! ### A lexeme is a non-empty beginning of the text -/

theorem stringBody_append {cs body rest : List Char} (h : stringBody cs = some (body, rest)) :
    body ++ '"' :: rest = cs := by
  fun_induction stringBody cs generalizing body rest with
  | case1 => simp at h
  | case2 => simp_all
  | case3 => simp at h
  | case4 c cs b r hb ih =>
    obtain ⟨rfl, rfl⟩ := by simpa using h
    simpa using ih hb
  | case5 => simp at h
  | case6 c cs _ _ _ b r hb ih =>
    obtain ⟨rfl, rfl⟩ := by simpa using h
    simpa using ih hb
  | case7 => simp at h

theorem fraction_append (cs : List Char) : (fraction cs).1 ++ (fraction cs).2 = cs := by
  unfold fraction
  split
  · split
    · simp
    · simp
  · simp

theorem front_token_append {previous : Option TokenKind} {cs lexeme rest : List Char}
    {kind : TokenKind} (h : front previous cs = .token kind lexeme rest) :
    lexeme ++ rest = cs := by
  cases cs with
  | nil => simp [front] at h
  | cons c cs =>
    simp only [front] at h
    split at h
    · simp only [Front.token.injEq] at h
      simp [← h.2.1, ← h.2.2]
    · split at h
      · simp only [Front.token.injEq] at h
        rw [← h.2.1, ← h.2.2, List.cons_append, List.take_append_drop]
      · split at h
        · simp only [Front.token.injEq] at h
          simp [← h.2.1, ← h.2.2]
        · split at h
          · simp only [Front.token.injEq] at h
            simp [← h.2.1, ← h.2.2]
          · split at h
            · split at h
              · next hc _ _ _ hb =>
                simp only [Front.token.injEq] at h
                simp [← h.2.1, ← h.2.2, stringBody_append hb]
              · cases h
            · split at h
              · simp only [numeral, Front.token.injEq] at h
                simp [← h.2.1, ← h.2.2, fraction_append]
              · split at h
                · simp only [word] at h
                  split at h <;>
                  · simp only [Front.token.injEq] at h
                    simp [← h.2.1, ← h.2.2]
                · cases h

theorem front_token_ne_nil {previous : Option TokenKind} {cs lexeme rest : List Char}
    {kind : TokenKind} (h : front previous cs = .token kind lexeme rest) : lexeme ≠ [] := by
  rintro rfl
  cases cs with
  | nil => simp [front] at h
  | cons c cs =>
    simp only [front] at h
    repeat' split at h
    all_goals first
      | simp at h
      | (simp only [numeral] at h; simp at h)
      | (simp only [word] at h; split at h <;> simp at h)

/-! ### Reading one token after another -/

/-- A place in a source text. -/
structure Cursor where
  rest : List Char
  position : Position
  /-- The kind of the last token read. -/
  previous : Option TokenKind
  deriving DecidableEq, Inhabited

namespace Cursor

/-- The start of a text. -/
def ofList (cs : List Char) : Cursor :=
  ⟨cs, .start, none⟩

/-- Reads the next token.  At the end of the text this is the end token, any number of times; a
character that starts no token is not passed, and an unterminated string uses up the text. -/
def next (cur : Cursor) : Except Error Token × Cursor :=
  let (gap, rest) := splitTrivia false cur.rest
  let here := cur.position.advanceBy gap
  match front cur.previous rest with
  | .finished => (.ok (.endOfInput here), ⟨[], here, some .eof⟩)
  | .token kind lexeme rest =>
    (.ok ⟨kind, tokenText kind lexeme, here⟩, ⟨rest, here.advanceBy lexeme, some kind⟩)
  | .unrecognized c => (.error (.unrecognized c here), ⟨rest, here, cur.previous⟩)
  | .unterminated =>
    (.error (.unterminatedString here), ⟨[], here.advanceBy rest, cur.previous⟩)

/-- Reading a token other than the end shortens the text. -/
theorem next_rest_length_lt {cur : Cursor} {t : Token} (h : cur.next.1 = .ok t)
    (ht : t.kind ≠ .eof) : cur.next.2.rest.length < cur.rest.length := by
  have hle := splitTrivia_length_le false cur.rest
  unfold next at h ⊢
  generalize hs : splitTrivia false cur.rest = s at h hle ⊢
  obtain ⟨gap, rest⟩ := s
  simp only at h hle ⊢
  cases hf : front cur.previous rest with
  | finished =>
    simp only [hf, Except.ok.injEq] at h
    exact absurd (by rw [← h]; rfl) ht
  | token kind lexeme tail =>
    have ha := congrArg List.length (front_token_append hf)
    have hn := List.length_pos_iff.2 (front_token_ne_nil hf)
    simp only [List.length_append] at ha
    simp only
    omega
  | unrecognized c => simp [hf] at h
  | unterminated => simp [hf] at h

set_option linter.unusedVariables false in
/-- The remaining tokens, the end token included. -/
def tokens (cur : Cursor) : Except Error (List Token) :=
  match h : cur.next with
  | (.error e, _) => .error e
  | (.ok t, cur') =>
    if ht : t.kind = .eof then .ok [t]
    else
      match tokens cur' with
      | .error e => .error e
      | .ok ts => .ok (t :: ts)
termination_by cur.rest.length
decreasing_by
  have hlt := @next_rest_length_lt cur t (by rw [h]) ht
  rw [h] at hlt
  exact hlt

end Cursor

end Lexer

/-- The tokens of a source text, the end token last. -/
def tokenize (source : String) : Except Error (List Token) :=
  (Lexer.Cursor.ofList source.toList).tokens

end AtomScript
