import NullAccess.Files.Path

/-!
# Ignored files

A pattern that begins with a star ignores files by the end of their name.  Any other pattern ignores
files of that name and everything below a directory of that name.
-/

namespace NullAccess

/-- A pattern in the list of what to ignore. -/
inductive IgnorePattern where
  /-- Files whose name ends in a text. -/
  | ending (s : String)
  /-- Files and directories of a name. -/
  | named (s : String)
  deriving DecidableEq, Repr

namespace IgnorePattern

def ofText (s : String) : IgnorePattern :=
  if s.toList.head? = some '*' then ending (String.ofList (s.toList.dropWhile (· == '*')))
  else named s

def covers (p : Path) : IgnorePattern → Bool
  | ending s => s.toList.isSuffixOf p.name.toList
  | named s => p.name == s || p.components.contains s

/-- The pattern of a line of an ignore file, unless it is blank or a comment. -/
def ofLine? (l : Line) : Option String :=
  let t := Text.trim l
  if t.isEmpty || t.head? == some '#' then none else some (String.ofList t)

end IgnorePattern

namespace Ignore

/-- What is ignored in every project: version control, installed and built code, and the program's
own files. -/
def defaults : List String :=
  [".git", ".hg", ".svn", "node_modules", "bower_components", "dist", "build", "coverage", ".next",
   ".nuxt", ".cache", "*.min.js", "*.bundle.js", "*.map", "nullscan_report.json",
   ".nullscan-whitelist.json"]

def fileName : String := ".nullscanignore"

def covers (patterns : List String) (p : Path) : Bool :=
  patterns.any fun s => (IgnorePattern.ofText s).covers p

def ofText (s : String) : List String := (Text.listLines s.toList).filterMap IgnorePattern.ofLine?

end Ignore

end NullAccess
