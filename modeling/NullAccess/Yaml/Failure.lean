/-!
# Why a YAML text has no value

A text may break the rules of the language, and a scalar may be written like a number, a date or a
truth value, or be tagged as one, without denoting any.
-/

namespace NullAccess.Yaml

/-- Why a text has no value. -/
inductive Failure where
  /-- The text breaks a rule of the language. -/
  | malformed
  /-- A number, a date or the code of a character that denotes none. -/
  | noValue
  /-- The code of a character that is beyond all bounds. -/
  | codeTooLarge
  /-- A number without any digits. -/
  | noDigits
  /-- A word that stands for no truth value. -/
  | noTruth
  /-- A text that is not written like a date. -/
  | noDate
  /-- The text nests its contents too deeply. -/
  | tooDeep
  deriving DecidableEq, Repr

end NullAccess.Yaml
