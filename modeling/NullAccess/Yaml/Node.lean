import NullAccess.Json.Basic

/-!
# YAML values

What a configuration file or a rule file holds: scalars, sequences and mappings.  The keys of a
mapping may be scalars of any kind.
-/

namespace NullAccess.Yaml

/-- A YAML value. -/
inductive Node where
  | null
  | bool (b : Bool)
  | int (n : Int)
  | real (r : RealNumber)
  | text (s : String)
  /-- A text with half a character in it. -/
  | broken
  | bytes (b : ByteArray)
  /-- A calendar date or time. -/
  | date (s : String)
  | seq (items : List Node)
  | map (pairs : List (Node × Node))
  deriving Inhabited

namespace Node

def sameKey : Node → Node → Bool
  | null, null => true
  | bool a, bool b => a == b
  | int a, int b => a == b
  | real a, real b => a == b
  | text a, text b => a == b
  | bytes a, bytes b => a == b
  | date a, date b => a == b
  | _, _ => false

/-- Only a scalar can be a key. -/
def isScalar : Node → Bool
  | seq _ => false
  | map _ => false
  | _ => true

/-- The pairs of a mapping with one more; a later value replaces an earlier one under its key. -/
def setPair (k v : Node) : List (Node × Node) → List (Node × Node)
  | [] => [(k, v)]
  | (l, w) :: rest => if sameKey l k then (l, v) :: rest else (l, w) :: setPair k v rest

/-- Whether a value counts as nothing: null, false, zero, or empty. -/
def isEmpty : Node → Bool
  | null => true
  | bool b => !b
  | int n => n == 0
  | real (.finite d) => d.toBinary?.any (·.mantissa == 0)
  | real _ => false
  | text s => s.isEmpty
  | broken => false
  | bytes b => b.isEmpty
  | date _ => false
  | seq items => items.isEmpty
  | map pairs => pairs.isEmpty

mutual

/-- The same value as JSON.  Bytes are the text that they encode.  A date, and a mapping under whose
keys there is one that is no text, becomes an object without fields, which no scalar and no list can
be read from. -/
def toJson : Node → Json
  | null => .null
  | bool b => .bool b
  | int n => .int n
  | real r => .real r
  | text s => .str s
  | broken => .broken
  | bytes b => (String.fromUTF8? b).elim .broken .str
  | date _ => .obj []
  | seq items => .arr (itemsToJson items)
  | map pairs => .obj ((pairsToJson pairs).getD [])

def itemsToJson : List Node → List Json
  | [] => []
  | n :: rest => n.toJson :: itemsToJson rest

/-- The fields of a mapping whose keys are all text.  A broken text is the name of no field. -/
def pairsToJson : List (Node × Node) → Option (List (String × Json))
  | [] => some []
  | (text k, v) :: rest => (pairsToJson rest).map ((k, v.toJson) :: ·)
  | (broken, _) :: rest => pairsToJson rest
  | _ :: _ => none

end

end Node

end NullAccess.Yaml
