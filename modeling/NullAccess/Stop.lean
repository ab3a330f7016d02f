import NullAccess.Fault
import NullAccess.Files.Tree
import NullAccess.Yaml.Failure

/-!
# Stops

What ends a run of the program that no message of its own accounts for.
-/

namespace NullAccess

/-- What ends a run. -/
inductive Stop where
  /-- A file that has to be text holds other bytes. -/
  | notText
  /-- The configuration has a key that is no text. -/
  | keyNotText
  /-- Something is written like a number or a date, but denotes none. -/
  | noNumber
  /-- A file nests its contents too deeply. -/
  | tooDeep
  /-- The configuration follows the rules of its language, but has no value. -/
  | noValue (why : Yaml.Failure)
  /-- A file is to be written whose path has no last name. -/
  | noName
  /-- The analysis or a check cannot go on. -/
  | fault (f : Fault)
  /-- A file that has to be read or written cannot be. -/
  | file (e : FileError)
  deriving DecidableEq, Repr

end NullAccess
