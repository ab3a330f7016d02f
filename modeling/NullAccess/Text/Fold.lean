/-!
# Letters regardless of case

Two characters are variants of one ASCII letter when simple case folding identifies them.  Outside
ASCII that adds the long s, the Kelvin sign, and the dotted and dotless forms of i.
-/

namespace NullAccess.Text

/-- The characters above ASCII that are variants of a lower-case ASCII letter. -/
def foldPartners : List (Char × Char) :=
  [('i', '\u0130'), ('i', '\u0131'), ('k', '\u212a'), ('s', '\u017f')]

/-- Whether `c` is the lower-case ASCII letter `letter`, in either case or as a variant. -/
def sameLetter (letter c : Char) : Bool :=
  c.toLower == letter || foldPartners.contains (letter, c)

end NullAccess.Text
