import NullAccess.Text.Lines
import NullAccess.Text.Word

/-!
# Parameter lists

Two readings of the text between the parentheses of a function: the names that may be absent when
the function is called, and all names in order, which is the function's signature.
-/

namespace NullAccess.Source

/-- A plain name: an ASCII letter, `_` or `$`, then name characters. -/
def isPlainName : List Char → Bool
  | [] => false
  | c :: r => Text.isNameStart c && r.all Text.isNameChar

/-- The name of a parameter that may be absent.  A rest parameter, a parameter with a default and a
pattern have none; an annotation and a mark of being optional are dropped. -/
def absentable? (raw : List Char) : Option String :=
  let p := Text.trim raw
  if p.isEmpty || "...".toList.isPrefixOf p || p.contains '=' then none
  else
    let name := Text.trim (Text.dropEndWhile (· == '?') (Text.trim (Text.cutAt ':' p).1))
    if isPlainName name then some (String.ofList name) else none

/-- The names of the parameters that may be absent. -/
def absentableParams (params : List Char) : List String :=
  (Text.splitOn ',' params).filterMap absentable?

/-- The name of a parameter as it counts in a signature: the text before an annotation, a default
or a mark of being optional. -/
def signatureName? (raw : List Char) : Option String :=
  let p := (Text.trim raw).dropWhile (· == '.')
  let name := Text.trim (p.takeWhile fun c => !(c == ':' || c == '=' || c == '?'))
  if name.isEmpty then none else some (String.ofList name)

/-- The names of all parameters, in order. -/
def signature (params : List Char) : List String :=
  (Text.splitOn ',' params).filterMap signatureName?

end NullAccess.Source
