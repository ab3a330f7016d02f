/-!
# Flaws of written patterns

Not every text denotes a pattern.
-/

namespace NullAccess.Pattern

/-- Why a text denotes no pattern. -/
inductive Flaw where
  /-- It breaks the rules of writing patterns. -/
  | malformed
  /-- A bound is a number beyond all repetition. -/
  | tooMany
  /-- A bound has too many digits. -/
  | tooLong
  /-- It asks for the words of ASCII and for those of all scripts. -/
  | opposed
  /-- Its groups are nested too deeply. -/
  | tooDeep
  deriving DecidableEq, Repr

end NullAccess.Pattern
