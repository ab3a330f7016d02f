import NullAccess.Proofs.Ledger.Approve
import NullAccess.Proofs.Report.Growth
import NullAccess.Proofs.Scan
import NullAccess.Proofs.Text.Padding

/-!
# An approval suppresses its own line

A scan, an approval and a second scan: the findings of the approved line move from the new ones to
the whitelisted ones, and nothing else in the report changes.  Removing the entry undoes that
(`approval_moves_its_own_line`).

The ledger is written in between, so its file must not be one of the files at hand.  `Spares` says
that in terms of the locations a write leads through: a file's name may lead through them only where
there is a directory already.
-/

namespace NullAccess

/-! ## Trimming -/

namespace Text

theorem trimString_ofList_trim (t : List Char) :
    trimString (String.ofList (trim t)) = String.ofList (trim t) := by
  rw [trimString, String.toList_ofList, trim_trim]

end Text

/-! ## The verdict on an approved line -/

theorem Source.trimString_codeAt? {lines : List Line} {n : Int} {code : String}
    (h : Source.codeAt? lines n = some code) : Text.trimString code = code := by
  unfold codeAt? at h
  split at h
  · cases h
  · obtain ⟨l, -, rfl⟩ := Option.map_eq_some_iff.mp h
    exact Text.trimString_ofList_trim l

namespace Validator

/-- An entry that relies on nothing else is valid as long as its line holds the approved code. -/
theorem judge_of_kept {read : String → Except Cause (List Line)} {e : Entry} {lines : List Line}
    (hfit : e.unfit = []) (halone : e.dependencies = []) (hread : read e.file = .ok lines)
    (hcode : Source.codeAt? lines e.line = some e.approvedCodeSnapshot) :
    judge read false e = .ok
      { entryId := e.id, file := e.file, line := e.line, state := .valid } := by
  have hline : lineIssue? e lines = none := by
    rw [lineIssue?, hcode]
    exact if_pos (Source.trimString_codeAt? hcode).symm
  rw [judge_of_ok (numbered_of_unfit_eq_nil hfit) (unfitFault?_of_unfit_eq_nil hfit _) hread,
    judgeLines, hline]
  simp [judgeDependencies, halone, providerIssuesOf, bodyIssuesOf]

/-- The verdict of a fresh validator depends only on the files that the entry names. -/
theorem verdictOn_congr {root : Path} {t t' : Tree} {e : Entry}
    (h : ∀ name ∈ e.file :: e.dependencies.map (·.targetFile),
      t'.sourceLines (Approval.pathOf root name) = t.sourceLines (Approval.pathOf root name)) :
    verdictOn { root } t' e = verdictOn { root } t e := by
  have hfresh : ∀ name ∈ e.file :: e.dependencies.map (·.targetFile),
      fresh t' root name = fresh t root name := by
    intro name hname
    unfold fresh
    rw [h name hname]
  rw [verdictOn, verdictOn, validate_fst, validate_fst, known_of_cache_eq_nil rfl,
    known_of_cache_eq_nil rfl]
  refine judge_congr (hfresh e.file List.mem_cons_self) fun d hd => ?_
  exact hfresh d.targetFile (List.mem_cons_of_mem _ (List.mem_map_of_mem hd))

end Validator

/-! ## Files apart from the ledger -/

/-- The files that the entries of a ledger name. -/
def Ledger.namedFiles (l : Ledger) : List String :=
  l.entries.flatMap fun e => e.file :: e.dependencies.map (·.targetFile)

/-- Whether a write of the ledger spares some files: where a file's name and the write lead through
the same location, there is a directory already. -/
def Spares (t : Tree) (root path : Path) (names : List String) : Prop :=
  ∀ name ∈ names, ∀ l ∈ Tree.way [] (Approval.pathOf root name).parts,
    l ∈ Store.touched path → t.at? l = some .dir

namespace Spares

variable {t t' : Tree} {root path : Path} {names : List String}

theorem kept (h : Spares t root path names) (hkeeps : Tree.Keeps (Store.touched path) t t') :
    Spares t' root path names :=
  fun name hname l hl htouched => hkeeps.dirs l (h name hname l hl htouched)

theorem mono {more : List String} (h : Spares t root path names) (hsub : more ⊆ names) :
    Spares t root path more :=
  fun name hname => h name (hsub hname)

theorem sourceLines (h : Spares t root path names) (hkeeps : Tree.Keeps (Store.touched path) t t')
    {name : String} (hname : name ∈ names) :
    t'.sourceLines (Approval.pathOf root name) = t.sourceLines (Approval.pathOf root name) := by
  rw [Tree.sourceLines, Tree.sourceLines, Tree.read_congr]
  intro l hl
  by_cases htouched : l ∈ Store.touched path
  · have hdir := h name hname l hl htouched
    rw [hdir, hkeeps.dirs l hdir]
  · exact hkeeps.elsewhere l htouched

end Spares

namespace ScanReport

variable {results : List FileResult} {l : Ledger} {t t' : Tree} {root : Path} {k : Classifier}
  {names : List String} {d : DefaultSeverity} {target today time : String}
  {before after : ScanReport}

/-! ## Buckets -/

/-- How a report changes when the findings of a line move to an entry: they keep their order, and
lose at most their fix. -/
structure Moves (before : ScanReport) (file : String) (line : Int) (id : String)
    (after : ScanReport) : Prop where
  new : after.new = before.new.filter fun f => !(f.file == file && f.line == line)
  moved : (after.whitelisted.filter (·.entryId == id)).map (·.finding.withFix) =
    before.new.filter fun f => f.file == file && f.line == line
  others : after.whitelisted.filter (·.entryId != id) = before.whitelisted
  drift : after.drift = before.drift
  errors : after.errors = before.errors

/-- Whether two reports have the same buckets. -/
structure SameBuckets (before after : ScanReport) : Prop where
  new : after.new = before.new
  whitelisted : after.whitelisted = before.whitelisted
  drift : after.drift = before.drift
  errors : after.errors = before.errors

theorem category_of_mem_new {v : Validator} (hfiles : (Scan.files t root k names).2 = .ok results)
    (h : assemble results l t v d target today time = .ok before) {f : Finding}
    (hf : f ∈ before.new) :
    f.category = nullAccessCategory := by
  obtain ⟨-, rfl⟩ := assemble_eq_ok_iff.mp h
  obtain ⟨g, hg, rfl⟩ := List.mem_map.mp hf
  obtain ⟨r, hr, hgr⟩ := List.mem_flatMap.mp (List.mem_of_mem_filter hg)
  obtain ⟨original, horiginal, rfl⟩ := List.mem_map.mp hgr
  have hcategory : original.category = nullAccessCategory :=
    Scan.category_of_mem_files hfiles (List.mem_of_mem_filter hr) horiginal
  exact hcategory

theorem Yields.sameBuckets (h : before.Yields [] after) : SameBuckets before after := by
  constructor
  · rw [h.new]
    simp
  · rw [← h.others]
    simp [Merge.isExtra]
  · exact h.drift
  · exact h.errors

theorem Yields.moves {entry : Entry} (h : before.Yields [entry] after)
    (hfit : entry.unfit = []) (hcategory : ∀ f ∈ before.new, f.category = entry.category) :
    before.Moves entry.file entry.line entry.id after := by
  have hunfit := Validator.unfit?_eq_none hfit
  have hcovers : ∀ f ∈ before.new, [entry].any (·.covers f) =
      (f.file == entry.file && f.line == entry.line) := by
    intro f hf
    have hisAt : entry.isAt f.file f.line = true ↔ f.file = entry.file ∧ f.line = entry.line := by
      simp only [Entry.isAt, Entry.isLine, hunfit, Option.isNone_none, Bool.true_and,
        Bool.and_eq_true, beq_iff_eq]
      exact and_congr eq_comm eq_comm
    have hisOf : entry.isOf f.category = true := by
      rw [Entry.isOf, hunfit, hcategory f hf]
      simp
    rw [List.any_cons, List.any_nil, Bool.or_false, Entry.covers, hisOf, Bool.and_true,
      Bool.eq_iff_iff, hisAt, Bool.and_eq_true, beq_iff_eq, beq_iff_eq]
  have hextra : ∀ id, Merge.isExtra [entry] id = (id == entry.id) := by
    intro id
    rw [Bool.eq_iff_iff]
    simp [Merge.isExtra]
  constructor
  · rw [h.new]
    exact List.filter_congr fun f hf => by rw [hcovers f hf]
  · rw [← List.filter_congr hcovers, ← h.taken]
    simp only [hextra]
  · rw [← h.others]
    simp only [hextra, bne]
  · exact h.drift
  · exact h.errors

end ScanReport

namespace Approval

open Store

variable {s s' : Store} {t t' : Tree} {root : Path} {k : Classifier} {names : List String}
  {d : DefaultSeverity} {target day : String} {file : String} {line : Int} {entry : Entry}
  {before : ScanReport}

/-- An approved entry is valid wherever its file holds the same lines. -/
theorem Granted.approves (h : Granted s t day root file line t' s' entry) {u : Tree}
    (hlines : u.sourceLines (pathOf root file) = t.sourceLines (pathOf root file)) :
    Validator.Approves { root } u entry := by
  obtain ⟨lines, hread, hcode⟩ := h.code
  have hknown : Validator.known { root } u entry.file = .ok lines := by
    rw [Validator.known_of_cache_eq_nil rfl, h.file_eq]
    unfold Validator.fresh
    rw [hlines, hread]
  rw [← h.line_eq] at hcode
  have hjudge := Validator.judge_of_kept h.fit h.alone hknown hcode
  rw [← Validator.validate_fst { root } u entry] at hjudge
  exact ⟨_, hjudge, rfl⟩

theorem Granted.grows (h : Granted s t day root file line t' s' entry) :
    s.data.Grows s'.data [entry] := by
  constructor
  · rw [h.wrote.store]
    rfl
  · intro e he hid
    exact h.freshId e he (by simpa using hid)

/-- The lines of files that a write of the ledger spares, the verdicts on entries that name such
files, and so the results of a scan, are as before. -/
theorem scan_kept {results : List FileResult} {l : Ledger} {path : Path}
    (hspares : Spares t root path (names ++ l.namedFiles))
    (hkeeps : Tree.Keeps (touched path) t t')
    (hfiles : (Scan.files t root k names).2 = .ok results) :
    (Scan.files t' root k names).2 = .ok results ∧
      ∀ e ∈ l.entries, Validator.verdictOn { root } t' e = Validator.verdictOn { root } t e := by
  constructor
  · rw [Scan.files_congr fun name hname =>
      hspares.sourceLines hkeeps (List.mem_append_left _ hname)]
    exact hfiles
  · intro e he
    refine Validator.verdictOn_congr fun name hname => ?_
    exact hspares.sourceLines hkeeps
      (List.mem_append_right names (List.mem_flatMap.mpr ⟨e, he, hname⟩))

/-- An approval moves the findings of its own line from the new ones to the whitelisted ones, and
removing the entry moves them back.  The ledger's own file, its neighbour and the directories made
for them are not among the files that are scanned or named. -/
theorem approval_moves_its_own_line {reason id day₁ time₁ : String}
    (day₂ time₂ day₃ day₄ time₄ : String)
    (hscan : (Scan.report t root false k names s.data d target day₁ time₁).2 = .ok before)
    (hspares : Spares t root s.path (file :: names ++ s.data.namedFiles))
    (happrove : approve s t day root { file, line, reason, id } = ⟨t', s', .ok entry⟩) :
    (s'.data.enabledSignatures = s.data.enabledSignatures ∧
      ∃ after, (Scan.report t' root false k names s'.data d target day₂ time₂).2 = .ok after ∧
        before.Moves file line entry.id after) ∧
    ∃ t'' s'', s'.remove t' day₃ entry.id = ⟨t'', s'', .ok true⟩ ∧
      s''.data.enabledSignatures = s.data.enabledSignatures ∧
      ∃ again, (Scan.report t'' root false k names s''.data d target day₄ time₄).2 = .ok again ∧
        before.SameBuckets again := by
  obtain ⟨results, hfiles, hassemble⟩ := Scan.report_eq_ok_iff.mp hscan
  have hgranted := granted_of_approve happrove
  have hkeeps := replaceFile_keeps hgranted.wrote.replaced
  have hspares' : Spares t root s.path (names ++ s.data.namedFiles) :=
    fun name hname => hspares name (List.mem_cons_of_mem file hname)
  refine ⟨⟨?_, ?_⟩, ?_⟩
  · rw [hgranted.wrote.store]
    rfl
  · -- After the approval the ledger has grown by the new entry, which is valid.
    obtain ⟨hfiles', hsame⟩ := scan_kept hspares' hkeeps hfiles
    have happroves := hgranted.approves (hspares.sourceLines hkeeps List.mem_cons_self)
    obtain ⟨after, hafter, hyields⟩ :
        ∃ after, ScanReport.assemble results s'.data t' { root } d target day₂ time₂ = .ok after ∧
          before.Yields [entry] after :=
      ScanReport.assemble_grown hgranted.grows hsame (by simpa using happroves) hassemble
    refine ⟨after, Scan.report_eq_ok_iff.mpr ⟨results, hfiles', hafter⟩, ?_⟩
    have hmoves := hyields.moves hgranted.fit fun f hf =>
      (ScanReport.category_of_mem_new hfiles hassemble hf).trans hgranted.category_eq.symm
    rwa [hgranted.file_eq, hgranted.line_eq] at hmoves
  · obtain ⟨t'', s'', hremove, hwrote⟩ := remove_granted hgranted day₃
    refine ⟨t'', s'', hremove, ?_, ?_⟩
    · rw [hwrote.store, hgranted.wrote.store]
      rfl
    · -- After the removal it has the entries from before, so it has grown by none.
      have hpath : s'.path = s.path := by rw [hgranted.wrote.store]
      have hkeeps' : Tree.Keeps (touched s.path) t' t'' := by
        have hreplaced := replaceFile_keeps hwrote.replaced
        rwa [hpath] at hreplaced
      obtain ⟨hfiles', hsame⟩ := scan_kept hspares' (hkeeps.trans hkeeps') hfiles
      have hgrows : s.data.Grows s''.data [] := by
        refine ⟨?_, fun e he => List.not_mem_nil⟩
        rw [hwrote.store, List.append_nil]
        rfl
      obtain ⟨again, hagain, hyields⟩ :
          ∃ again,
            ScanReport.assemble results s''.data t'' { root } d target day₄ time₄ = .ok again ∧
            before.Yields [] again :=
        ScanReport.assemble_grown hgrows hsame nofun hassemble
      exact ⟨again, Scan.report_eq_ok_iff.mpr ⟨results, hfiles', hagain⟩, hyields.sameBuckets⟩

/-- A project with one file and no ledger yet. -/
def sampleTree : Tree :=
  ⟨[(["p"], .dir), (["p", "a.js"], .file "function f(u) \x7b\n u.a;\n\x7d".toUTF8)]⟩

def sampleRoot : Path := { anchor := .root, parts := ["p"] }

/-- An open ledger with an entry whose line has changed. -/
def sampleStore : Store :=
  { path := { anchor := .root, parts := ["p", "q", "ledger.json"] },
    data :=
      { lastUpdated := "2025-03-04",
        entries :=
          [{ id := "n-1", file := "a.js", line := 1, approvedCodeSnapshot := "g();",
             approvedDate := "2025-03-04" }] } }

/-- The report of the project. -/
def sampleReport : Except Fault ScanReport :=
  (Scan.report sampleTree sampleRoot false { rules := {} } ["a.js"] sampleStore.data .error ""
    "2025-03-05").2

/-- The approval of the second line. -/
def sampleApproval : Outcome Entry :=
  approve sampleStore sampleTree "2025-03-05" sampleRoot
    { file := "a.js", line := 2, reason := "checked by the caller" }

theorem approval_moves_its_own_line_sample :
    ∃ before t' s' entry, sampleReport = .ok before ∧
      before.new.any (fun f => f.file == "a.js" && f.line == 2) = true ∧
      Spares sampleTree sampleRoot sampleStore.path
        ("a.js" :: ["a.js"] ++ sampleStore.data.namedFiles) ∧
      sampleApproval = ⟨t', s', .ok entry⟩ ∧
      ∃ after, (Scan.report t' sampleRoot false { rules := {} } ["a.js"] s'.data .error ""
          "2025-03-06").2 = .ok after ∧
        before.Moves "a.js" 2 entry.id after := by
  have hfound : (sampleReport.toOption.any
      (·.new.any fun f => f.file == "a.js" && f.line == 2)) = true := by
    decide +kernel
  have hgiven : sampleApproval.result.isOk = true := by decide +kernel
  have hspares : Spares sampleTree sampleRoot sampleStore.path
      ("a.js" :: ["a.js"] ++ sampleStore.data.namedFiles) := by
    unfold Spares
    decide +kernel
  cases hscan : sampleReport with
  | error f =>
    rw [hscan] at hfound
    cases hfound
  | ok before =>
    rw [hscan] at hfound
    cases happrove : sampleApproval with
    | mk t' s' r =>
      rw [happrove] at hgiven
      cases r with
      | error e => cases hgiven
      | ok entry =>
        obtain ⟨⟨-, hafter⟩, -⟩ := approval_moves_its_own_line "2025-03-06" ScanReport.noon
          "2025-03-07" "2025-03-08" ScanReport.noon hscan hspares happrove
        exact ⟨before, t', s', entry, rfl, hfound, hspares, rfl, hafter⟩

end Approval

end NullAccess
