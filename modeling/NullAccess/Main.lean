import NullAccess.Command.Run
import Std.Time.Format

/-!
# The program

Reads the files that a command may need into a tree, runs the command, writes the files that it
changed, and prints what it has to say.
-/

namespace NullAccess.Program

def textOf (l : Location) : String := "/" ++ Path.joinParts l

/-- A tree with a directory at a location and at every location above it. -/
def insertDirs (t : Tree) (l : Location) : Tree :=
  (List.range (l.length + 1)).foldl
    (fun t n => if n = 0 || (t.at? (l.take n)).isSome then t else t.insert (l.take n) .dir) t

/-- Reads what stands at a location, a directory with everything below it.  Links are left out. -/
partial def load (t : Tree) (l : Location) : IO Tree := do
  let path ← IO.FS.realPath (textOf l)
  match (← path.symlinkMetadata).type with
  | .file => return (insertDirs t l.dropLast).insert l (.file (← IO.FS.readBinFile path))
  | .dir =>
    (← path.readDir).foldlM
      (fun t e => do
        match (← e.path.symlinkMetadata).type with
        | .file => return t.insert (l ++ [e.fileName]) (.file (← IO.FS.readBinFile e.path))
        | .dir => load t (l ++ [e.fileName])
        | _ => return t)
      (insertDirs t l)
  | _ => return t

/-- Reads what stands at a location, or at the nearest location above it, of which then only the
directory itself counts. -/
def loadNear (t : Tree) (l : Location) : IO Tree := do
  try load t l
  catch _ =>
    let mut there : Location := []
    for n in List.range l.length do
      try
        if ← (← IO.FS.realPath (textOf (l.take n))).isDir then there := l.take n
      catch _ => pure ()
    return insertDirs t there

/-- Writes the difference between two trees. -/
def store (old new : Tree) : IO Unit := do
  for (l, n) in new.nodes.reverse do
    if n == .dir && old.at? l != some n then IO.FS.createDirAll (textOf l)
  for (l, n) in new.nodes.reverse do
    match n with
    | .file content => if old.at? l != some n then IO.FS.writeBinFile (textOf l) content
    | .dir => pure ()
  for (l, n) in old.nodes do
    if n != .dir && (new.at? l).isNone then IO.FS.removeFile (textOf l)

def treeFor (cwd : Path) (c : Command) : IO Tree := do
  let root := (c.target.root.filter (!·.isEmpty)).getD "."
  let mut t : Tree := {}
  for place in root :: c.operands do
    t ← loadNear t (Path.resolve cwd (Path.ofText place)).parts
  return t

def usage : String :=
  "Usage: nullscan (scan | version | whitelist COMMAND | frameworks COMMAND) [OPTIONS] [ARGS]"

def faultMessage : Fault → String
  | .badPattern p _ => s!"A rule has no valid pattern: {p}"
  | .noSuchLine => "A ledger entry names a line beyond the end of its file"
  | .longNumeral => "A number has too many digits"
  | .nulInName => "A file name holds a NUL character"
  | .unfit | .notCountable | .notTrimmable => "A ledger entry holds a value that does not fit"

def stopMessage : Stop → String
  | .notText => "A file is not UTF-8 text"
  | .keyNotText => "The configuration has a key that is not text"
  | .noNumber => "Something is written like a number or a date, but is none"
  | .tooDeep => "A file nests its contents too deeply"
  | .noValue _ => "The configuration holds something that denotes no value"
  | .noName => "The ledger's path has no file name"
  | .fault f => faultMessage f
  | .file e => e.message

/-- The time of day; a fraction of a second has six digits, and none is written if it is zero. -/
def timeText (now : Std.Time.DateTime) : String :=
  now.format (if now.nanosecond.val < 1000 then "HH:mm:ss" else "HH:mm:ss.SSSSSS")

def run (args : List String) : IO UInt32 := do
  match Command.ofArgs args with
  | .error .help =>
    IO.println usage
    return 0
  | .error .wrong =>
    IO.eprintln usage
    return 2
  | .ok c =>
    let cwd := Path.ofText (← IO.currentDir).toString
    let now := Std.Time.DateTime.ofTimestampWithZone (← Std.Time.Timestamp.now) .UTC
    let tree ← treeFor cwd c
    let ran := c.run { tree, cwd, today := now.format "uuuu-MM-dd", time := timeText now }
    store tree ran.tree
    for w in ran.warnings do
      IO.eprintln w.template
    for l in ran.out do
      IO.println l
    if let some s := ran.stop then IO.eprintln (stopMessage s)
    return ran.exit.toUInt32

end NullAccess.Program

def main (args : List String) : IO UInt32 := NullAccess.Program.run args
