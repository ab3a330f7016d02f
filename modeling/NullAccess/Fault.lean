import NullAccess.Pattern.Flaw

/-!
# Faults

What can stop a computation on given lines: a rule whose pattern has no reading, a line number
beyond the lines there are, a numeral that is too long to denote a number, or a file name that no
file can have.
-/

namespace NullAccess

/-- Why an analysis step stops. -/
inductive Fault where
  /-- A rule was reached whose pattern has no reading. -/
  | badPattern (pattern : String) (flaw : Pattern.Flaw)
  /-- A line was looked at that is not there. -/
  | noSuchLine
  /-- A number was reached that has too many digits. -/
  | longNumeral
  /-- A file name holds a NUL character. -/
  | nulInName
  /-- A field of a ledger entry holds a value that the check cannot take as the field's. -/
  | unfit
  /-- A field of a ledger entry holds a value that is no number where one is needed. -/
  | notCountable
  /-- A field of a ledger entry holds a value that is no text where one is needed. -/
  | notTrimmable
  deriving DecidableEq, Repr

end NullAccess
