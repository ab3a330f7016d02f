import NullAccess.Files.Ignore
import NullAccess.Stop
import NullAccess.Warning

/-!
# Finding the files to work on

A directory under version control is listed by version control; any other directory, and one whose
listing fails, is walked.  Arguments name files or directories and become paths relative to the
project's root.
-/

namespace NullAccess

/-- What version control answers when it is asked for its files. -/
inductive Listing where
  | unavailable
  | timedOut
  | failed
  /-- The paths, one on each line. -/
  | listed (text : String)
  deriving DecidableEq, Repr, Inhabited

/-- The same answer in every directory. -/
instance : Coe Listing (Path → Listing) := ⟨fun answer _ => answer⟩

/-- Where a list of files comes from. -/
inductive Origin where
  | git
  | directory
  deriving DecidableEq, Repr

namespace Origin

def text : Origin → String
  | git => "git"
  | directory => "directory"

end Origin

/-- Why a directory cannot be searched. -/
inductive DiscoverError where
  | missing (dir : Path)
  | notDirectory (dir : Path)
  /-- The ignore file is no text. -/
  | notText
  /-- The ignore file cannot be read, or the system does not take a path. -/
  | unreadable (e : FileError)
  deriving DecidableEq, Repr

namespace DiscoverError

def message : DiscoverError → String
  | missing dir => s!"Target directory does not exist: {dir.text}"
  | notDirectory dir => s!"Target path is not a directory: {dir.text}"
  | notText => ""
  | unreadable e => e.message

def toStop : DiscoverError → Stop
  | missing dir => .file ⟨.notFound, dir.text⟩
  | notDirectory dir => .file ⟨.notDirectory, dir.text⟩
  | notText => .notText
  | unreadable e => .file e

end DiscoverError

namespace Discover

def sorted (ps : List Path) : List Path := ps.mergeSort Path.le

def ofListing (text : String) : List Path :=
  sorted
    (((Text.listLines text.toList).filter (!·.isEmpty)).map fun l => Path.ofText (String.ofList l))

def ignoreFile (t : Tree) (dir : Path) : Except DiscoverError (List String) :=
  let path := dir.join (Path.ofText Ignore.fileName)
  if t.has path then
    match t.read path with
    | .error e => .error (.unreadable e)
    | .ok bytes =>
      match String.fromUTF8? bytes with
      | none => .error .notText
      | some s => .ok (Ignore.ofText s)
  else .ok []

/-- The files below a directory, relative to it. -/
def walk (t : Tree) (dir : Path) : List Path :=
  match t.locate dir with
  | .ok l => sorted ((t.filesBelow l).map fun parts => { parts })
  | .error _ => []

/-- The files below a directory that no pattern ignores. -/
def byWalk (t : Tree) (dir : Path) (extra : List String) : Except DiscoverError (List Path) :=
  match ignoreFile t dir with
  | .error e => .error e
  | .ok own => .ok ((walk t dir).filter fun p => !Ignore.covers (Ignore.defaults ++ extra ++ own) p)

/-- The files of a directory, relative to it, and where the list comes from. -/
def files (t : Tree) (listing : Listing) (target : Path) (extra : List String) :
    List Warning × Except DiscoverError (List Path × Origin) :=
  let dir := target.settled
  match target.nul?, t.probe dir with
  | some e, _ => ([], .error (.unreadable e))
  | none, .error e => ([], .error (.unreadable e))
  | none, .ok none => ([], .error (.missing dir))
  | none, .ok (some (.file _)) => ([], .error (.notDirectory dir))
  | none, .ok (some .dir) =>
    let walked := (byWalk t dir extra).map fun ps => (ps, .directory)
    if t.has (dir.join (Path.ofText ".git")) then
      match listing with
      | .listed text =>
        -- The project's ignore file is for the walk only.
        let kept := (ofListing text).filter fun p => !Ignore.covers (Ignore.defaults ++ extra) p
        ([], .ok (kept, .git))
      | .timedOut => ([.listingTimedOut], walked)
      | _ => ([], walked)
    else ([], walked)

/-- The files with one of the endings.  Without endings, the usual ones count. -/
def withExtension (usual extensions : List String) (ps : List Path) : List Path :=
  let allowed := if extensions.isEmpty then usual else extensions
  ps.filter fun p => allowed.contains p.suffix

/-- The name of a path for the project: relative to its root if it lies there, and absolute
otherwise. -/
def projectName (root p : Path) : String := ((root.below? p.settled).getD p.settled).text

/-- What is needed to turn arguments into files. -/
structure Search where
  tree : Tree
  /-- What version control answers in each directory. -/
  listing : Path → Listing := Listing.unavailable
  root : Path
  /-- The directory that arguments are seen from. -/
  cwd : Path
  /-- The endings that count when none are given. -/
  usual : List String
  extensions : List String := []
  ignore : List String := []

namespace Search

/-- Where an argument is looked up. -/
def seen (s : Search) (arg : String) : Path :=
  let given := Path.ofText arg
  if given.absolute then given else Path.resolve s.cwd given

def expand (s : Search) (arg : String) : List Warning × Except DiscoverError (List String) :=
  let path := s.seen arg
  match (Path.ofText arg).nul?, s.tree.probe path with
  | some e, _ => ([], .error (.unreadable e))
  | none, .error e => ([], .error (.unreadable e))
  | none, .ok (some .dir) =>
    match files s.tree (s.listing path.settled) path s.ignore with
    | (ws, .error e) => (ws, .error e)
    | (ws, .ok (ps, _)) =>
      let kept := withExtension s.usual s.extensions ps
      (ws, .ok (kept.map fun p => projectName s.root (path.join p)))
  | none, .ok _ => ([], .ok [projectName s.root path])

def expandAll (s : Search) : List String → List Warning × Except DiscoverError (List String)
  | [] => ([], .ok [])
  | arg :: rest =>
    match s.expand arg with
    | (ws, .error e) => (ws, .error e)
    | (ws, .ok found) =>
      let (more, others) := s.expandAll rest
      (ws ++ more, others.map (found ++ ·))

/-- The same search with its root seen from its directory, as a path without `..`. -/
def rooted (s : Search) : Search := { s with root := Path.resolve s.cwd s.root }

/-- The files to work on, each once.  Without arguments, all files of the project. -/
def targets (s : Search) (args : List String) : List Warning × Except DiscoverError (List String) :=
  let (ws, found) := s.rooted.expandAll (if args.isEmpty then [s.rooted.root.text] else args)
  (ws, found.map List.eraseDups)

end Search

end Discover

end NullAccess
