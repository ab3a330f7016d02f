import NullAccess.Pattern.Basic
import NullAccess.Text.Case

/-!
# Modes of written patterns

A mode says how the signs of a written pattern are understood: whether letters stand for either
case, whether the ends of lines count as ends, whether words and digits are those of ASCII.  A
pattern can set modes for the whole of itself or for a group.
-/

namespace NullAccess.Pattern

/-- How the signs of a written pattern are understood. -/
structure Mode where
  /-- A letter stands for its case variants too. -/
  anyCase : Bool := false
  /-- The ends of lines count as ends of the text. -/
  byLine : Bool := false
  /-- Any character includes the line feed. -/
  acrossLines : Bool := false
  /-- Blanks and comments in the pattern are passed over. -/
  spaced : Bool := false
  /-- Words, digits, blanks and case are those of ASCII. -/
  ascii : Bool := false
  /-- Words, digits, blanks and case are explicitly those of all scripts. -/
  allScripts : Bool := false
  /-- Nothing may be repeated. -/
  single : Bool := false
  deriving DecidableEq, Repr

namespace Mode

def ofLetter? : Char → Option Mode
  | 'i' => some { anyCase := true }
  | 'm' => some { byLine := true }
  | 's' => some { acrossLines := true }
  | 'x' => some { spaced := true }
  | 'a' => some { ascii := true }
  | 'u' => some { allScripts := true }
  | 't' => some { single := true }
  | _ => none

def both (m n : Mode) : Mode :=
  { anyCase := m.anyCase || n.anyCase, byLine := m.byLine || n.byLine
    acrossLines := m.acrossLines || n.acrossLines, spaced := m.spaced || n.spaced
    ascii := m.ascii || n.ascii, allScripts := m.allScripts || n.allScripts
    single := m.single || n.single }

def meets (m n : Mode) : Bool :=
  (m.anyCase && n.anyCase) || (m.byLine && n.byLine) || (m.acrossLines && n.acrossLines) ||
    (m.spaced && n.spaced)

/-- The mode inside a group that sets some of it and unsets some. -/
def within (m on off : Mode) : Mode :=
  { anyCase := (m.anyCase || on.anyCase) && !off.anyCase
    byLine := (m.byLine || on.byLine) && !off.byLine
    acrossLines := (m.acrossLines || on.acrossLines) && !off.acrossLines
    spaced := (m.spaced || on.spaced) && !off.spaced
    ascii := on.ascii || (m.ascii && !on.allScripts)
    single := m.single }

def isWord (m : Mode) : Char → Bool :=
  if m.ascii then fun c => c.isAlphanum || c == '_' else Text.isWord

def isDecimal (m : Mode) : Char → Bool := if m.ascii then Char.isDigit else Text.isDecimal

/-- The blanks of ASCII, which may also be written between the signs of a spaced pattern. -/
def isAsciiBlank (c : Char) : Bool :=
  c == ' ' || c == '\t' || c == '\n' || c == '\r' || c == '\x0b' || c == '\x0c'

def isBlank (m : Mode) : Char → Bool := if m.ascii then isAsciiBlank else Text.isBlank

def variants (m : Mode) (n : Nat) : List Nat :=
  if !m.anyCase then [n] else if m.ascii then Text.asciiVariants n else Text.caseVariants n

/-- Whether a character may stand for one that was read before. -/
def same (m : Mode) : Char → Char → Bool :=
  if !m.anyCase then (· == ·)
  else if m.ascii then fun c d => Text.asciiSmallForm c.toNat == Text.asciiSmallForm d.toNat
  else fun c d => Text.smallForm c.toNat == Text.smallForm d.toNat

def char (m : Mode) (n : Nat) : Pattern :=
  let codes := m.variants n
  one fun c => codes.contains c.toNat

def dot (m : Mode) : Pattern := if m.acrossLines then one fun _ => true else inLine

/-- The beginning of the text or, by line, of a line. -/
def first (m : Mode) : Pattern := if m.byLine then alt start (behind true (· == '\n')) else start

/-- The end of the text or, by line, of a line. -/
def last (m : Mode) : Pattern := if m.byLine then ahead false inLine else stop

def veryEnd : Pattern := ahead false (one fun _ => true)

/-- A place in a text that has characters. -/
def notAlone : Pattern := alt (behind true fun _ => true) (ahead true (one fun _ => true))

/-- A border of words, or a place that is none. -/
def border (m : Mode) (wanted : Bool) : Pattern :=
  if m.ascii then
    let word := one m.isWord
    notAlone ++ alt (behind true m.isWord ++ ahead (!wanted) word)
      (behind false m.isWord ++ ahead wanted word)
  else Pattern.border wanted

end Mode

end NullAccess.Pattern
