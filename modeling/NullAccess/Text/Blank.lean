/-!
# Blanks

Which characters separate words, and the trimming that follows from it.  A blank is a character
of Unicode's `White_Space` property or one of the four information separators U+001C to U+001F.
Text is handled as the list of its characters, because every column counts code points.
-/

namespace NullAccess.Text

/-- Unicode white space. -/
def isSpace (c : Char) : Bool :=
  let n := c.toNat
  (9 ≤ n && n ≤ 13) || n == 0x20 || n == 0x85 || n == 0xA0 || n == 0x1680 ||
    (0x2000 ≤ n && n ≤ 0x200A) || n == 0x2028 || n == 0x2029 || n == 0x202F || n == 0x205F ||
    n == 0x3000

/-- A blank: Unicode white space, or an information separator. -/
def isBlank (c : Char) : Bool := isSpace c || (0x1C ≤ c.toNat && c.toNat ≤ 0x1F)

def trimLeft (t : List Char) : List Char := t.dropWhile isBlank

def dropEndWhile (p : Char → Bool) (t : List Char) : List Char :=
  (t.reverse.dropWhile p).reverse

def trimRight (t : List Char) : List Char := dropEndWhile isBlank t

def trim (t : List Char) : List Char := trimRight (trimLeft t)

/-- The text without the white space at both ends.  A numeral may have white space around it, but no
information separator. -/
def trimSpace (t : List Char) : List Char := dropEndWhile isSpace (t.dropWhile isSpace)

def trimString (s : String) : String := String.ofList (trim s.toList)

theorem trimLeft_cons_of_blank {c : Char} (t : List Char) (h : isBlank c = true) :
    trimLeft (c :: t) = trimLeft t := by
  simp [trimLeft, h]

theorem trimLeft_cons_of_not_blank {c : Char} (t : List Char) (h : isBlank c = false) :
    trimLeft (c :: t) = c :: t := by
  simp [trimLeft, h]

/-- Every run of blanks becomes one space.  `gap` says that the last character read was a blank
of a run already written. -/
def squeezeFrom (gap : Bool) : List Char → List Char
  | [] => []
  | c :: r =>
    if isBlank c then
      if gap then squeezeFrom true r else ' ' :: squeezeFrom true r
    else c :: squeezeFrom false r

/-- Every run of blanks becomes one space, and the ends are trimmed.  Two texts that differ only
in their layout are equal after this. -/
def squeeze (t : List Char) : List Char := trim (squeezeFrom false t)

end NullAccess.Text
