import NullAccess.Yaml.Failure
import NullAccess.Yaml.Kind

/-!
# YAML tokens

The pieces of a YAML text.  Indentation shows as the beginning and end of block collections, and a
key is announced before the token it begins with.
-/

namespace NullAccess.Yaml

/-- How a scalar is written. -/
inductive Style where
  /-- Neither quoted nor a block of text. -/
  | plain
  | quoted
  /-- Quoted, with half a character in it. -/
  | broken
  deriving DecidableEq, Repr, Inhabited

/-- A piece of a YAML text. -/
inductive Token where
  | directive
  | documentStart
  | documentEnd
  | blockSequenceStart
  | blockMappingStart
  | blockEnd
  | flowSequenceStart
  | flowSequenceEnd
  | flowMappingStart
  | flowMappingEnd
  | blockEntry
  | flowEntry
  | key
  | value
  | scalar (text : List Char) (style : Style)
  /-- A tag with the kind that it names; the tag `!` leaves the kind open. -/
  | tag (kind : Option Kind)
  | anchor (name : String)
  | alias (name : String)
  /-- The place from which on the text could not be cut. -/
  | stop (why : Failure)
  deriving DecidableEq, Repr, Inhabited

end NullAccess.Yaml
