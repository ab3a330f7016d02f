import NullAccess.Console.Screen
import NullAccess.Report

/-!
# The report on the console

A report reads from the top the way a reviewer works through it: first the new findings with their
fixes, then the entries that need a decision, and last, if asked for, what is whitelisted.
-/

namespace NullAccess.Screen

open Markup (escape styled)

/-! ## Marks -/

def passMark : String := styled "bold green" "[OK]"

def warnMark : String := styled "bold yellow" "[WARN]"

def alertMark : String := styled "bold red" "[ALERT]"

def infoMark : String := styled "bold blue" "[INFO]"

def levelMark (f : Finding) : String := if f.level = "error" then alertMark else warnMark

def stateStyle : DriftState → String
  | .valid => "green"
  | .drifted => "yellow"
  | .broken => "red"
  | .unverified => "dim"

/-! ## Parts of a report -/

def approvalHint : String :=
  "To approve a finding that cannot be absent, add above the line:\n" ++
  "  // @validation-ignore null-access\n" ++
  "  // @reason: <why the value is always present>\n" ++
  "  // @dependency: <function>() at line <N> [in <file>]\n" ++
  "then run [white]nullscan whitelist sync[/white]."

def header (r : ScanReport) : List String :=
  let s := r.summary
  let program := styled "bold cyan" "nullscan"
  let target := styled "dim" (escape r.scanTarget)
  let counts := styled "dim"
    (s!"{s.filesScanned} file(s) | {s.new} new | {s.whitelisted} whitelisted | " ++
      s!"{s.drift} drift | {s.fileErrors} unreadable")
  print s!"\n{program} {target}\n{counts}"

def finding (f : Finding) : List String :=
  let style := match f.severity with
    | .high => "red"
    | .medium => "yellow"
  let kind := styled style f.accessKind.text
  let name := styled "bold" (escape f.bindingName)
  let cause := styled "dim" s!"({escape f.reason}, line {f.bindingLine})"
  let fixLabel := styled "cyan" "Fix:"
  let fixLines := match f.suggestedFix with
    | some fix => if fix.isEmpty then [] else print s!"        {fixLabel} {escape fix}"
    | none => []
  print s!"    {levelMark f} line {f.line}: {kind} of {name} {cause}" ++
    plain s!"        {f.sourceLine}".toList ++ fixLines

def filesOf (fs : List Finding) : List String :=
  (fs.map (·.file)).eraseDups.mergeSort fun a b => !decide (b < a)

def findingsOfFile (fs : List Finding) (file : String) : List String :=
  let name := styled "bold white" (escape file)
  print s!"\n  {name}" ++ (fs.filter (·.file == file)).flatMap finding

def newFindings (fs : List Finding) : List String :=
  if fs.isEmpty then print s!"\n  {passMark}  No new unsafe accesses."
  else
    let title := styled "bold" s!"New findings ({fs.length})"
    print s!"\n{title}" ++ (filesOf fs).flatMap (findingsOfFile fs)

/-- The lines about one issue: its message unless that is the item's own, and the two texts that
differ. -/
def issueLines (reason : String) (i : ValidationIssue) : List String :=
  let message :=
    if i.message.isEmpty || i.message == reason then []
    else
      let text := styled "dim" (escape i.message)
      [s!"    {text}"]
  let texts := match i.expected, i.actual with
    | some old, some new =>
      let approved := styled "dim" "approved:"
      let current := styled "dim" "current: "
      [s!"    {approved} {escape old}", s!"    {current} {escape new}"]
    | _, _ => []
  message ++ texts

def driftLines (d : DriftItem) : List String :=
  let state := styled (stateStyle d.state) d.state.text.toUpper
  let next := styled "cyan" "Next:"
  let title := s!"{state} {escape d.entryId} at {escape d.file}:{d.line}: {escape d.reason}"
  let fix := (d.fix?.map fun f => s!"    {next} {escape f}").toList
  title :: d.issues.flatMap (issueLines d.reason) ++ fix

def drift (items : List DriftItem) : List String :=
  if items.isEmpty then []
  else
    panel (styled "bold yellow" s!"Drift ({items.length})")
      ("\n".intercalate (items.flatMap driftLines))

def whitelisted (r : ScanReport) : List String :=
  if r.whitelisted.isEmpty then []
  else
    let title := styled "bold dim" "Whitelisted findings (--verbose):"
    print s!"\n{title}" ++
      table
        [{ title := "Entry", least := 8 }, { title := "File", share := some 2 },
          { title := "Line", least := 4 }, { title := "Binding", least := 6 }]
        (r.whitelisted.map fun w =>
          [cell w.entryId, cell w.finding.file, cell s!"{w.finding.line}",
            cell w.finding.bindingName])

def unreadFile (e : UnreadFile) : List String :=
  print s!"  {warnMark}  Could not read {escape e.file}: {escape e.error}"

def report (r : ScanReport) (verbose : Bool) : List String :=
  let failed := styled "bold red" "Scan failed"
  let passed := styled "bold green" "Scan passed"
  let hint := styled "dim" approvalHint
  header r ++ r.errors.flatMap unreadFile ++ newFindings r.new ++ drift r.drift ++
    (if verbose then whitelisted r else []) ++
    (if r.new.isEmpty then [] else print s!"\n{hint}") ++
    print (if r.shouldFail then s!"\n  {alertMark}  {failed}" else s!"\n  {passMark}  {passed}")

end NullAccess.Screen
