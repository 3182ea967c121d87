/-!
# Escapes and markers in strings

The body of a string literal is kept by the lexer as it was written.  Here it is decoded: a
backslash and the character after it stand for one character (`unescape`), and `#{…}` marks a place
for the value of an expression (`markers?`).

Braces inside a marker nest.  A backslash protects the character after it from starting a marker,
but inside a marker braces count whether or not a backslash precedes them.
-/

namespace AtomScript.Template

/-- The character that a backslash and `c` stand for; an unknown pair stands for itself. -/
def escaped (c : Char) : List Char :=
  match c with
  | 'n' => ['\n']
  | 't' => ['\t']
  | 'r' => ['\r']
  | '"' => ['"']
  | '\\' => ['\\']
  | c => ['\\', c]

/-- Decodes the escapes of a text. -/
def unescapeList : List Char → List Char
  | [] => []
  | '\\' :: [] => ['\\']
  | '\\' :: c :: cs => escaped c ++ unescapeList cs
  | c :: cs => c :: unescapeList cs

def unescape (s : String) : String :=
  String.ofList (unescapeList s.toList)

/-- What stands before the brace that closes `depth + 1` open ones, and what follows that brace. -/
def balanced (depth : Nat) : List Char → Option (List Char × List Char)
  | [] => none
  | '}' :: cs =>
    match depth with
    | 0 => some ([], cs)
    | d + 1 => (balanced d cs).map fun (inner, rest) => ('}' :: inner, rest)
  | '{' :: cs => (balanced (depth + 1) cs).map fun (inner, rest) => ('{' :: inner, rest)
  | c :: cs => (balanced depth cs).map fun (inner, rest) => (c :: inner, rest)

theorem balanced_length_lt {depth : Nat} {cs inner rest : List Char}
    (h : balanced depth cs = some (inner, rest)) : inner.length + rest.length < cs.length := by
  fun_induction balanced depth cs generalizing inner rest with
  | case1 => simp at h
  | case2 => simp_all
  | case3 cs d ih =>
    obtain ⟨⟨a, b⟩, hb, he⟩ := Option.map_eq_some_iff.1 h
    have := ih hb
    simp only [Prod.mk.injEq] at he
    simp only [← he.1, ← he.2, List.length_cons]
    omega
  | case4 depth cs ih =>
    obtain ⟨⟨a, b⟩, hb, he⟩ := Option.map_eq_some_iff.1 h
    have := ih hb
    simp only [Prod.mk.injEq] at he
    simp only [← he.1, ← he.2, List.length_cons]
    omega
  | case5 depth c cs _ _ ih =>
    obtain ⟨⟨a, b⟩, hb, he⟩ := Option.map_eq_some_iff.1 h
    have := ih hb
    simp only [Prod.mk.injEq] at he
    simp only [← he.1, ← he.2, List.length_cons]
    omega

/-- What each marker of a body encloses, in order; `none` when the braces of a marker are never
closed. -/
def markersList? (cs : List Char) : Option (List (List Char)) :=
  match cs with
  | [] => some []
  | '\\' :: [] => some []
  | '\\' :: _ :: cs => markersList? cs
  | '#' :: '{' :: cs =>
    match h : balanced 0 cs with
    | none => none
    | some (inner, rest) =>
      have _ := balanced_length_lt h
      (markersList? rest).map (inner :: ·)
  | _ :: cs => markersList? cs
termination_by cs.length
decreasing_by all_goals simp_wf <;> omega

/-- A marker: the opening, what it encloses, the closing brace. -/
def marker (inner : List Char) : List Char :=
  '#' :: '{' :: inner ++ ['}']

/-- What each marker of a string body encloses. -/
def markers? (body : String) : Option (List String) :=
  (markersList? body.toList).map (·.map String.ofList)

/-- The marker around a text, as it stands in the body. -/
def markerText (inner : String) : String :=
  String.ofList (marker inner.toList)

end AtomScript.Template
