/-!
# Kinds of YAML values

What a value is taken for.  A tag names the kind; without one it follows from how the value is
written.
-/

namespace NullAccess.Yaml

/-- What a value is taken for. -/
inductive Kind where
  | null
  | bool
  | int
  | real
  | text
  | bytes
  | date
  | seq
  | map
  /-- A mapping of which only the keys count. -/
  | set
  /-- A sequence of mappings with one pair each. -/
  | pairs
  /-- The key of values that are merged into the mapping around it. -/
  | merge
  /-- The key of a mapping's default value. -/
  | default
  /-- A tag that names none of these. -/
  | unknown
  deriving DecidableEq, Repr, Inhabited

def standardTags : String := "tag:yaml.org,2002:"

namespace Kind

def ofTag (tag : String) : Kind :=
  let named : List (String × Kind) :=
    [("null", null), ("bool", bool), ("int", int), ("float", real), ("str", text),
      ("binary", bytes), ("timestamp", date), ("seq", seq), ("map", map), ("set", set),
      ("omap", pairs), ("pairs", pairs), ("merge", merge), ("value", default)]
  ((named.find? fun (name, _) => standardTags ++ name == tag).map (·.2)).getD unknown

end Kind

end NullAccess.Yaml
