import NullAccess.Analysis
import NullAccess.Report
import NullAccess.Rule.Shipped

/-!
# Scanning files

Every file is analysed for itself.  A file that cannot be read has no findings but an error, and the
scan goes on; only a name that no file can have ends it.  The report is made when all files are
read.
-/

namespace NullAccess.Scan

def file (t : Tree) (root : Path) (k : Classifier) (name : String) :
    List Warning × Except Fault FileResult :=
  match t.sourceLines (root.join (Path.ofText name)) with
  | .error e =>
    if e.cause.isRefusal then
      ([.fileUnreadable], .ok { file := name, error := some e.message })
    else ([], .error .nulInName)
  | .ok lines => ([], (Analysis.run name lines k).map fun findings => { file := name, findings })

/-- The results of a file and of those after it; an error of the file is the only one that
counts. -/
def followedBy (first : List Warning × Except Fault FileResult)
    (rest : List Warning × Except Fault (List FileResult)) :
    List Warning × Except Fault (List FileResult) :=
  match first.2 with
  | .error f => (first.1, .error f)
  | .ok r => (first.1 ++ rest.1, rest.2.map (r :: ·))

def files (t : Tree) (root : Path) (k : Classifier) :
    List String → List Warning × Except Fault (List FileResult)
  | [] => ([], .ok [])
  | name :: rest => followedBy (file t root k name) (files t root k rest)

/-- Scans files and merges what is found with a ledger. -/
def report (t : Tree) (root : Path) (enforce : Bool) (k : Classifier) (names : List String)
    (l : Ledger) (d : DefaultSeverity) (target today : String)
    (time : String := ScanReport.noon) : List Warning × Except Fault ScanReport :=
  let (ws, found) := files t root k names
  (ws, found.bind fun results =>
    ScanReport.assemble results l t { root, enforce } d target today time)

end NullAccess.Scan
