import NullAccess.Text.Blank

/-!
# Lines

A source text is read as lines that end in a line feed, a carriage return, or both in that order.
All three are the same line end, and an empty last line is not a line.
-/

namespace NullAccess

/-- A line of source text without its end. -/
abbrev Line := List Char

namespace Text

/-- The stretches between the separators; there is always one more than there are separators. -/
def splitOn (sep : Char) : List Char → List (List Char)
  | [] => [[]]
  | c :: r =>
    if c = sep then [] :: splitOn sep r
    else match splitOn sep r with
      | [] => [[c]]
      | first :: rest => (c :: first) :: rest

theorem splitOn_ne_nil (sep : Char) (t : List Char) : splitOn sep t ≠ [] := by
  cases t with
  | nil => simp [splitOn]
  | cons c r =>
    simp only [splitOn]
    split
    · simp
    · split <;> simp

def joinWith (sep : List Char) : List (List Char) → List Char
  | [] => []
  | [t] => t
  | t :: rest => t ++ sep ++ joinWith sep rest

/-- What stands before the first separator, and what stands after it if there is one. -/
def cutAt (sep : Char) : List Char → List Char × Option (List Char)
  | [] => ([], none)
  | c :: r =>
    if c = sep then ([], some r)
    else ((c :: (cutAt sep r).1), (cutAt sep r).2)

/-- Every line end written as one line feed. -/
def unifyEnds : List Char → List Char
  | [] => []
  | '\r' :: '\n' :: r => '\n' :: unifyEnds r
  | '\r' :: r => '\n' :: unifyEnds r
  | c :: r => c :: unifyEnds r

/-- A line's own characters are left as they are. -/
theorem unifyEnds_append {l : Line} (h : '\r' ∉ l) (t : List Char) :
    unifyEnds (l ++ t) = l ++ unifyEnds t := by
  induction l with
  | nil => rfl
  | cons c r ih =>
    rw [List.mem_cons, not_or] at h
    have hc : c ≠ '\r' := fun heq => h.1 heq.symm
    rw [List.cons_append, unifyEnds, ih h.2, List.cons_append]
    · exact fun _ heq => absurd heq hc
    · exact fun heq => absurd heq hc

theorem unifyEnds_of_not_mem {t : List Char} (h : '\r' ∉ t) : unifyEnds t = t := by
  simpa [unifyEnds] using unifyEnds_append h []

def dropEmptyLast : List Line → List Line
  | [] => []
  | [l] => if l.isEmpty then [] else [l]
  | l :: rest => l :: dropEmptyLast rest

def sourceLines (t : List Char) : List Line := dropEmptyLast (splitOn '\n' (unifyEnds t))

/-- A character that ends a line of a list file: a vertical control, an information separator other
than the last, the next-line control, or a Unicode line or paragraph separator. -/
def isLineEnd (c : Char) : Bool :=
  let n := c.toNat
  (0x0A ≤ n && n ≤ 0x0D) || (0x1C ≤ n && n ≤ 0x1E) || n == 0x85 || n == 0x2028 || n == 0x2029

/-- The lines of a list file, where any line end counts and an unfinished last line is a line.
`held` is the line being read, last character first, if one was begun. -/
def listLinesFrom (held : Option (List Char)) : List Char → List Line
  | [] => held.toList.map List.reverse
  | '\r' :: '\n' :: r => (held.getD []).reverse :: listLinesFrom none r
  | c :: r =>
    if isLineEnd c then (held.getD []).reverse :: listLinesFrom none r
    else listLinesFrom (some (c :: held.getD [])) r

def listLines (t : List Char) : List Line := listLinesFrom none t

/-- Whether `part` stands somewhere in `t`. -/
def holds (part : List Char) : List Char → Bool
  | [] => part.isEmpty
  | c :: r => part.isPrefixOf (c :: r) || holds part r

theorem holds_iff_isInfix {part t : List Char} : holds part t = true ↔ part <:+: t := by
  induction t with
  | nil => simp [holds]
  | cons c r ih =>
    rw [holds, Bool.or_eq_true, ih, List.isPrefixOf_iff_prefix, List.infix_cons_iff]

end Text

end NullAccess
