import AtomScript.Text.CodeRange

/-!
# Blank characters

The characters with the Unicode property `White_Space`.  Blanks separate tokens in a source text
and are trimmed from both ends of a text.
-/

namespace AtomScript.Text

/-- The code points that are blank. -/
def blankRanges : List CodeRange :=
  [(0x9, 0xd), (0x20, 0x20), (0x85, 0x85), (0xa0, 0xa0), (0x1680, 0x1680), (0x2000, 0x200a),
   (0x2028, 0x2029), (0x202f, 0x202f), (0x205f, 0x205f), (0x3000, 0x3000)]

/-- The character is blank. -/
def isBlank (c : Char) : Bool :=
  inRanges blankRanges c

/-- The characters without the blanks at either end. -/
def trimBlanks (cs : List Char) : List Char :=
  ((cs.dropWhile isBlank).reverse.dropWhile isBlank).reverse

/-- The text without the blanks at either end. -/
def trim (s : String) : String :=
  String.ofList (trimBlanks s.toList)

/-- The text up to its first blank; all of it when it has none. -/
def firstWord (s : String) : String :=
  String.ofList (s.toList.takeWhile fun c => !isBlank c)

end AtomScript.Text
