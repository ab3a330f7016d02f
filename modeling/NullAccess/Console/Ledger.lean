import NullAccess.Console.Report
import NullAccess.Framework

/-!
# The ledger on the console

How entries, verdicts, framework patterns and errors are printed.
-/

namespace NullAccess.Screen

open Markup (escape styled)

def noEntries : List String := print s!"  {infoMark}  The ledger has no entries."

/-- The row of a verdict.  Where there is no reason, the warnings are shown. -/
def verdictRow (r : ValidationResult) : List (List Line) :=
  let reason := if r.reason.isEmpty then "; ".intercalate r.warnings else r.reason
  [cell r.entryId, cell s!"{r.file}:{r.line}", textCell r.state.text, cell reason]

def validation (rs : List ValidationResult) : List String :=
  if rs.isEmpty then noEntries
  else
    let bad := (rs.filter (!·.isValid)).length
    let passed := styled "bold green" s!"All {rs.length} entries are valid"
    let failed := styled "bold red" s!"{bad} of {rs.length} entries need attention"
    table
        [{ title := "Entry", least := 8 }, { title := "Location", share := some 2 },
          { title := "State", least := 8 }, { title := "Reason", share := some 2 }]
        (rs.map verdictRow) ++
      print (if bad = 0 then s!"  {passMark}  {passed}" else s!"  {alertMark}  {failed}")

def entryRow (e : Entry) : List (List Line) :=
  let validated := (e.lastValidatedDate.filter (!·.isEmpty)).getD "-"
  [cell e.id, cell e.location, textCell e.approvedCodeSnapshot, cell e.reason,
    cell s!"{e.dependencies.length}", cell validated]

def categoryLine (l : Ledger) : String :=
  let counts := l.categories.mergeSort fun a b => !decide (b.1 < a.1)
  ", ".intercalate (counts.map fun (c, n) => s!"{c}: {n}")

def entries (l : Ledger) : List String :=
  if l.entries.isEmpty then noEntries
  else
    let counts := categoryLine l
    table
        [{ title := "Entry", least := 8 }, { title := "Location", share := some 2 },
          { title := "Code", share := some 3 }, { title := "Reason", share := some 2 },
          { title := "Deps" }, { title := "Validated" }]
        (l.entries.map entryRow) ++
      if counts.isEmpty then [] else print (styled "dim" (escape counts))

def frameworkPattern (name : String) (p : FrameworkPattern) : List String :=
  let title := styled "bold" (escape name)
  let status := if p.enabled then styled "green" "enabled" else styled "dim" "disabled"
  let id := styled "dim" (escape p.id)
  let signatures := " | ".intercalate (p.signatures.map fun s => "(" ++ ", ".intercalate s ++ ")")
  let statistics := styled "dim"
    (s!"{p.stats.functionsMatched} function(s) in {p.stats.filesAffected} file(s), " ++
      s!"verified {p.verifiedDate}")
  print s!"  {title} {status} {id}" ++ print s!"      {escape signatures}" ++
    print s!"      {statistics}"

def frameworks (l : Ledger) : List String :=
  if l.frameworks.isEmpty then print s!"  {infoMark}  No framework patterns configured."
  else l.frameworksByName.flatMap fun (name, p) => frameworkPattern name p

def frameworkMatch (m : FrameworkMatch) : List String :=
  let name := if m.function.isEmpty then "<anonymous>" else m.function
  let params := ", ".intercalate m.params
  print s!"  {escape m.file}:{m.line}  {escape name}({escape params})"

def frameworkMatches (name : String) (ms : List FrameworkMatch) (suggest : Bool) : List String :=
  if ms.isEmpty then print s!"  {infoMark}  No {escape name} handlers found."
  else
    let title := styled "bold" (escape name)
    let command := styled "white" s!"nullscan frameworks enable {escape name}"
    print s!"\n{title}: {ms.length} matching function(s)" ++ ms.flatMap frameworkMatch ++
      if suggest then
        print s!"\n  {infoMark}  Run {command} to stop flagging these parameters."
      else []

def syncResult (r : Approval.SyncResult) : List String :=
  let known (location : String) : List String :=
    let text := styled "dim" s!"Already approved: {escape location}"
    print s!"  {text}"
  if r.added.isEmpty && r.skipped.isEmpty && r.errors.isEmpty then
    print s!"  {infoMark}  No suppression markers found."
  else
    (r.added.flatMap fun id => print s!"  {passMark}  Added {escape id}") ++
      r.skipped.flatMap known ++
      r.errors.flatMap fun e => print s!"  {warnMark}  {escape e}"

def error (message : String) : List String := print (styled "red" s!"Error: {escape message}")

end NullAccess.Screen
