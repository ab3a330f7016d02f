import NullAccess.Text.Blank
import NullAccess.Text.Digit
import NullAccess.Text.Fold
import NullAccess.Text.Word

/-!
# Text patterns

A pattern says which stretches of a text it matches and in which order they are tried.  The
meaning of a pattern at a place is the list of places where a match starting there may end, the
preferred end first.  Giving the whole list makes the meaning compositional: a sequence binds the
lists, a choice appends them.
-/

namespace NullAccess

/-- A place in a text: the characters before it, nearest first, the characters after it, and the
groups that were matched on the way, latest first.  A group is kept as its number, the text that
stood ahead where it began and the text that stood ahead where it ended. -/
structure Place where
  before : List Char
  after : List Char
  groups : List (Nat × List Char × List Char) := []
  deriving DecidableEq, Repr

namespace Place

def start (t : List Char) : Place := { before := [], after := t }

def column (s : Place) : Nat := s.before.length

/-- The text that was read under a number, if that group took part. -/
def group? (s : Place) (n : Nat) : Option (List Char) :=
  (s.groups.find? (·.1 == n)).map fun (_, opened, closed) =>
    opened.take (opened.length - closed.length)

/-- The place behind a text, if that text stands here.  `same` says which character may stand for
which. -/
def past? (same : Char → Char → Bool) : List Char → Place → Option Place
  | [], s => some s
  | c :: w, s =>
    match s.after with
    | [] => none
    | d :: r =>
      if same c d then past? same w { s with before := d :: s.before, after := r } else none

def back? : Nat → Place → Option Place
  | 0, s => some s
  | n + 1, s =>
    match s.before with
    | [] => none
    | c :: r => back? n { s with before := r, after := c :: s.after }

def next (s : Place) : Place :=
  match s.after with
  | [] => s
  | c :: r => { s with before := c :: s.before, after := r }

/-- Exactly one of the two neighbours is a word character. -/
def atBorder (s : Place) : Bool :=
  (s.before.head?.any Text.isWord) != (s.after.head?.any Text.isWord)

/-- The place in a text that has no characters. -/
def isAlone (s : Place) : Bool := s.before.isEmpty && s.after.isEmpty

/-- The end of the text, or the place before one final line feed. -/
def atStop (s : Place) : Bool := s.after.isEmpty || s.after == ['\n']

@[simp] theorem start_before (t : List Char) : (start t).before = [] := rfl

@[simp] theorem start_after (t : List Char) : (start t).after = t := rfl

end Place

/-- What may be matched, and in which order the possibilities are tried. -/
inductive Pattern where
  /-- The empty stretch. -/
  | nothing
  /-- One character of a class. -/
  | one (p : Char → Bool)
  /-- One pattern after the other. -/
  | seq (a b : Pattern)
  /-- Either pattern, the first preferred. -/
  | alt (a b : Pattern)
  /-- Any number of repetitions, more preferred. -/
  | many (a : Pattern)
  /-- Any number of repetitions, fewer preferred. -/
  | few (a : Pattern)
  /-- Exactly so many repetitions. -/
  | times (n : Nat) (a : Pattern)
  /-- At most so many repetitions, more preferred. -/
  | upTo (n : Nat) (a : Pattern)
  /-- At most so many repetitions, fewer preferred. -/
  | upToFew (n : Nat) (a : Pattern)
  /-- The preferred stretch of a pattern and no other. -/
  | atomic (a : Pattern)
  /-- A pattern whose text is kept under a number. -/
  | group (n : Nat) (a : Pattern)
  /-- The beginning of the text. -/
  | start
  /-- The end of the text, or the place before one final line feed. -/
  | stop
  /-- A place where a word begins or ends, or, if not wanted, a place where none does.  A text
  without characters has neither. -/
  | border (wanted : Bool)
  /-- A place where the pattern matches, or, if not wanted, a place where it does not. -/
  | ahead (wanted : Bool) (a : Pattern)
  /-- A place after a character of the class, or, if not wanted, a place that follows none. -/
  | behind (wanted : Bool) (p : Char → Bool)
  /-- A place so many characters before which the pattern matches, or, if not wanted, a place where
  it does not match there. -/
  | back (wanted : Bool) (n : Nat) (a : Pattern)
  /-- The text of a group once more.  `same` says which character may stand for which. -/
  | again (same : Char → Char → Bool) (n : Nat)
  /-- The first pattern if a group took part, and the second if it did not. -/
  | given (n : Nat) (a b : Pattern)

namespace Pattern

def further (s t : Place) : Bool := t.after.length < s.after.length

/-- The ends after rounds of `step`, more rounds first.  There are at most as many rounds as `left`
is long, and none goes on from a round that read nothing. -/
def rounds (step : Place → List Place) : (left : List Char) → Place → List Place
  | [], s => [s]
  | _ :: left, s =>
    ((step s).flatMap fun t => if further s t then rounds step left t else [t]) ++ [s]

/-- The ends after rounds of `step`, fewer rounds first. -/
def roundsFew (step : Place → List Place) : (left : List Char) → Place → List Place
  | [], s => [s]
  | _ :: left, s =>
    s :: (step s).flatMap fun t => if further s t then roundsFew step left t else [t]

/-- The ends after exactly so many rounds of `step`. -/
def roundsOf (step : Place → List Place) : Nat → Place → List Place
  | 0, s => [s]
  | n + 1, s => (step s).flatMap (roundsOf step n)

/-- As many as all rounds that can go on from each other: each but the last reads a character. -/
def allRounds (s : Place) : List Char := ' ' :: s.after

/-- The places where a match that starts at `s` may end, the preferred one first. -/
def ends : Pattern → Place → List Place
  | nothing, s => [s]
  | one p, s =>
    match s.after with
    | [] => []
    | c :: r => if p c then [{ s with before := c :: s.before, after := r }] else []
  | seq a b, s => (a.ends s).flatMap b.ends
  | alt a b, s => a.ends s ++ b.ends s
  | many a, s => rounds a.ends (allRounds s) s
  | few a, s => roundsFew a.ends (allRounds s) s
  | times n a, s => roundsOf a.ends n s
  | upTo n a, s => rounds a.ends ((allRounds s).take n) s
  | upToFew n a, s => roundsFew a.ends ((allRounds s).take n) s
  | atomic a, s => (a.ends s).head?.toList
  | group n a, s => (a.ends s).map fun t => { t with groups := (n, s.after, t.after) :: t.groups }
  | start, s => if s.before.isEmpty then [s] else []
  | stop, s => if s.atStop then [s] else []
  | border wanted, s => if s.atBorder == wanted && !s.isAlone then [s] else []
  | ahead true a, s => (a.ends s).head?.toList.map fun t => { s with groups := t.groups }
  | ahead false a, s => if (a.ends s).isEmpty then [s] else []
  | behind wanted p, s => if s.before.head?.any p == wanted then [s] else []
  | back wanted n a, s =>
    match s.back? n, wanted with
    | none, true => []
    | none, false => [s]
    | some u, true => (a.ends u).head?.toList.map fun t => { s with groups := t.groups }
    | some u, false => if (a.ends u).isEmpty then [s] else []
  | again same n, s => ((s.group? n).bind fun w => s.past? same w).toList
  | given n a b, s => if (s.group? n).isSome then a.ends s else b.ends s

instance : Append Pattern := ⟨seq⟩

instance : OrElse Pattern := ⟨fun a b => alt a (b ())⟩

@[simp] theorem ends_seq (a b : Pattern) (s : Place) :
    (a ++ b).ends s = (a.ends s).flatMap b.ends := rfl

@[simp] theorem ends_alt (a b : Pattern) (s : Place) :
    (a <|> b).ends s = a.ends s ++ b.ends s := rfl

/-! ## Building blocks -/

def chr (c : Char) : Pattern := one (· == c)

def text : List Char → Pattern
  | [] => nothing
  | c :: r => chr c ++ text r

def lit (s : String) : Pattern := text s.toList

def anyOf : List String → Pattern
  | [] => one fun _ => false
  | [s] => lit s
  | s :: r => alt (lit s) (anyOf r)

/-- The word in lower-case ASCII letters, written in any case. -/
def anyCase (s : String) : Pattern :=
  s.toList.foldr (fun c rest => one (Text.sameLetter c) ++ rest) nothing

def oneOf (s : String) : Pattern :=
  let signs := s.toList
  one fun c => signs.contains c

def noneOf (s : String) : Pattern :=
  let signs := s.toList
  one fun c => !signs.contains c

/-- At least one repetition, more preferred. -/
def some1 (a : Pattern) : Pattern := a ++ many a

/-- At least one repetition, fewer preferred. -/
def some1Few (a : Pattern) : Pattern := a ++ few a

/-- The pattern or nothing, the pattern preferred. -/
def opt (a : Pattern) : Pattern := alt a nothing

def blanks : Pattern := many (one Text.isBlank)

def gap : Pattern := some1 (one Text.isBlank)

def nameChars : Pattern := some1 (one Text.isNameChar)

def inLine : Pattern := one (· != '\n')

def edge : Pattern := border true

end Pattern

end NullAccess
