import NullAccess.Proofs.Drift.Judgement
import NullAccess.Proofs.Ledger.Atomic
import NullAccess.Proofs.Marker.Layout

/-!
# Verdicts and layout

The verdict on an entry does not depend on how the lines of its files are indented.  It is compared
with the verdict over the same files with every line trimmed: by the lemmas on markers and functions
no stage can tell the two apart, as long as the names of the functions hold no blanks.

Nor does it depend on why a file cannot be read, except in one place: the issue of such a file
quotes the system.  `withoutCauses` leaves the quotation out.  `verdict_ignores_layout` puts the two
together, and `verdict_quotes_system` shows that the quotation cannot be kept.
-/

namespace NullAccess

open Text

/-! ## Verdicts without quotations -/

/-- The issue without the system's words for a file that cannot be read. -/
def ValidationIssue.withoutCause (i : ValidationIssue) : ValidationIssue :=
  if i.reason = DriftReason.fileError.text ∨ i.reason = DriftReason.dependencyFileError.text then
    { i with message := "" }
  else i

def ValidationResult.withoutCauses (r : ValidationResult) : ValidationResult :=
  { r with issues := r.issues.map ValidationIssue.withoutCause }

/-- A cause that stands for all for which the system refuses a file. -/
def Cause.unspecific (c : Cause) : Cause := if c.isRefusal then .notFound else c

theorem Cause.isRefusal_unspecific (c : Cause) : c.unspecific.isRefusal = c.isRefusal := by
  cases c <;> rfl

namespace ValidationIssue

theorem reason_withoutCause (i : ValidationIssue) : i.withoutCause.reason = i.reason := by
  unfold withoutCause
  split <;> rfl

theorem withoutCause_fileIssue {reason : DriftReason}
    (h : reason = .fileError ∨ reason = .dependencyFileError) (c c' : Cause) (file : String)
    (line : Int) : (Validator.fileIssue reason c file line).withoutCause =
      (Validator.fileIssue reason c' file line).withoutCause := by
  rcases h with rfl | rfl <;> rfl

end ValidationIssue

namespace Validator

open ValidationIssue

variable {read : String → Except Cause (List Line)} {found : Except Cause (List Line)}
  {id : String} {e : Entry} {d : Dependency} {ds : List Dependency} {enforce : Bool}
  {r : ValidationResult}

theorem withoutCauses_failed (r : ValidationResult) (state : DriftState)
    (issues : List ValidationIssue) :
    (failed r state issues).withoutCauses =
      failed r.withoutCauses state (issues.map withoutCause) := by
  cases issues with
  | nil => simp [failed, ValidationResult.withoutCauses]
  | cons i is => simp [failed, ValidationResult.withoutCauses, reason_withoutCause]

theorem bodyState_withoutCause (issues : List ValidationIssue) :
    bodyState (issues.map withoutCause) = bodyState issues := by
  simp only [bodyState, List.any_map, Function.comp_def, reason_withoutCause]

/-! ## Why a file cannot be read -/

theorem providerIssue?_unspecific (id : String) (d : Dependency)
    (found : Except Cause (List Line)) :
    (providerIssue? id d (found.mapError Cause.unspecific)).map (Option.map withoutCause) =
      (providerIssue? id d found).map (Option.map withoutCause) := by
  cases found with
  | ok lines => rfl
  | error c =>
    simp only [Except.mapError, providerIssue?, Cause.isRefusal_unspecific]
    split
    · simp only [Except.map, Option.map_some,
        withoutCause_fileIssue (.inr rfl) c.unspecific c d.targetFile d.targetLine]
    · rfl

theorem bodyIssue?_unspecific (d : Dependency) (found : Except Cause (List Line)) :
    (bodyIssue? d (found.mapError Cause.unspecific)).map withoutCause =
      (bodyIssue? d found).map withoutCause := by
  cases found with
  | ok lines => rfl
  | error c => exact congrArg some (withoutCause_fileIssue (.inr rfl) c.unspecific c _ _)

theorem unfitFault?_unspecific (e : Entry) (found : Except Cause (List Line)) :
    unfitFault? e (found.mapError Cause.unspecific) = unfitFault? e found := by
  cases found with
  | ok lines => rfl
  | error c =>
    unfold unfitFault?
    cases e.unfit? "line" <;> rfl

/-- The issues of the first function and of the others, unless one of them stops the check. -/
def joined (first : Except Fault (Option ValidationIssue))
    (rest : Except Fault (List ValidationIssue)) : Except Fault (List ValidationIssue) := do
  let i ← first
  let is ← rest
  return i.toList ++ is

theorem providerIssuesOf_cons_withoutCause (id : String) (d : Dependency) (ds : List Dependency) :
    (providerIssuesOf read id (d :: ds)).map (List.map withoutCause) =
      joined ((providerIssue? id d (read d.targetFile)).map (Option.map withoutCause))
        ((providerIssuesOf read id ds).map (List.map withoutCause)) := by
  rw [providerIssuesOf]
  cases providerIssue? id d (read d.targetFile) with
  | error f => rfl
  | ok i =>
    cases providerIssuesOf read id ds with
    | error f => rfl
    | ok is => cases i <;> rfl

theorem providerIssuesOf_unspecific (id : String) (ds : List Dependency) :
    (providerIssuesOf (fun f => (read f).mapError Cause.unspecific) id ds).map
        (List.map withoutCause) =
      (providerIssuesOf read id ds).map (List.map withoutCause) := by
  induction ds with
  | nil => rfl
  | cons d rest ih =>
    rw [providerIssuesOf_cons_withoutCause, providerIssuesOf_cons_withoutCause, ih,
      providerIssue?_unspecific]

theorem bodyIssuesOf_unspecific (ds : List Dependency) :
    (bodyIssuesOf (fun f => (read f).mapError Cause.unspecific) ds).map withoutCause =
      (bodyIssuesOf read ds).map withoutCause := by
  simp only [bodyIssuesOf, List.map_filterMap]
  exact List.filterMap_congr fun d _ => bodyIssue?_unspecific d _

/-- The verdict that follows from the issues of markers and of bodies. -/
def verdictOf (providers : Except Fault (List ValidationIssue)) (bodies : List ValidationIssue)
    (r : ValidationResult) : Except Fault ValidationResult :=
  match providers, bodies with
  | .error f, _ => .error f
  | .ok [], [] => .ok { r with state := .valid }
  | .ok [], issues => .ok (failed r (bodyState issues) issues)
  | .ok issues, _ => .ok (failed r .broken issues)

theorem judgeDependencies_eq (e : Entry) (r : ValidationResult) :
    judgeDependencies read e r = verdictOf (providerIssuesOf read e.id e.dependencies)
      (bodyIssuesOf read e.dependencies) r := by
  rw [judgeDependencies]
  rcases providerIssuesOf read e.id e.dependencies with f | (_ | ⟨i, is⟩) <;>
    cases bodyIssuesOf read e.dependencies <;> rfl

theorem withoutCauses_verdictOf (providers : Except Fault (List ValidationIssue))
    (bodies : List ValidationIssue) (r : ValidationResult) :
    (verdictOf providers bodies r).map ValidationResult.withoutCauses =
      verdictOf (providers.map (List.map withoutCause)) (bodies.map withoutCause)
        r.withoutCauses := by
  rcases providers with f | (_ | ⟨i, is⟩)
  · rfl
  · cases bodies with
    | nil => rfl
    | cons i is =>
      have hfailed := withoutCauses_failed r (bodyState (i :: is)) (i :: is)
      rw [← bodyState_withoutCause (i :: is)] at hfailed
      rw [verdictOf, ← bodyState_withoutCause]
      · exact congrArg Except.ok hfailed
      · nofun
  · exact congrArg Except.ok (withoutCauses_failed r .broken (i :: is))

theorem judgeDependencies_unspecific (e : Entry) (r : ValidationResult) :
    (judgeDependencies (fun f => (read f).mapError Cause.unspecific) e r).map
        ValidationResult.withoutCauses =
      (judgeDependencies read e r).map ValidationResult.withoutCauses := by
  simp only [judgeDependencies_eq, withoutCauses_verdictOf, providerIssuesOf_unspecific,
    bodyIssuesOf_unspecific]

theorem judgeLines_unspecific (e : Entry) (lines : List Line) :
    (judgeLines (fun f => (read f).mapError Cause.unspecific) enforce e lines).map
        ValidationResult.withoutCauses =
      (judgeLines read enforce e lines).map ValidationResult.withoutCauses := by
  simp only [judgeLines]
  cases lineIssue? e lines with
  | some i => rfl
  | none =>
    by_cases henforce : enforce = true
    · simp only [henforce, if_true]
      cases Marker.consumer lines e.line with
      | error f => rfl
      | ok m =>
        by_cases hfound : (!m.found) = true
        · simp only [hfound, if_true]
        · simp only [hfound, Bool.false_eq_true, if_false]
          exact judgeDependencies_unspecific e _
    · simp only [henforce, Bool.false_eq_true, if_false]
      exact judgeDependencies_unspecific e _

/-- Apart from the quotations it does not matter for which cause the system refuses a file. -/
theorem judge_unspecific (read : String → Except Cause (List Line)) (enforce : Bool) (e : Entry) :
    (judge (fun f => (read f).mapError Cause.unspecific) enforce e).map
        ValidationResult.withoutCauses =
      (judge read enforce e).map ValidationResult.withoutCauses := by
  simp only [judge, unfitFault?_unspecific]
  cases unfitFault? (numbered e) (read (numbered e).file) with
  | some f => rfl
  | none =>
    cases read (numbered e).file with
    | ok lines => exact judgeLines_unspecific (numbered e) lines
    | error c =>
      simp only [Except.mapError, Cause.isRefusal_unspecific]
      by_cases hc : c.isRefusal = true
      · simp only [hc, if_true, Except.map, withoutCauses_failed, List.map_cons, List.map_nil,
          withoutCause_fileIssue (.inl rfl) c.unspecific c]
      · simp only [hc, Bool.false_eq_true, if_false]

/-! ## Trimmed files -/

theorem unfitFault?_trim (e : Entry) (found : Except Cause (List Line)) :
    unfitFault? e (found.map (List.map trim)) = unfitFault? e found := by
  cases found with
  | error c => rfl
  | ok lines =>
    unfold unfitFault?
    cases e.unfit? "line" with
    | some v => rfl
    | none => simp only [Except.map, Source.codeAt?_trim]

theorem lineIssue?_trim (e : Entry) (lines : List Line) :
    lineIssue? e (lines.map trim) = lineIssue? e lines := by
  simp only [lineIssue?, Source.codeAt?_trim]

theorem providerIssue?_trim (h : ∀ lines, found = .ok lines → ∀ l ∈ lines, '\n' ∉ l) :
    providerIssue? id d (found.map (List.map trim)) = providerIssue? id d found := by
  cases found with
  | error c => rfl
  | ok lines => simp only [Except.map, providerIssue?, Marker.provider_trim (h lines rfl)]

theorem bodyIssue?_trim (hname : ∀ c ∈ d.targetFunction.toList, isBlank c = false)
    (found : Except Cause (List Line)) :
    bodyIssue? d (found.map (List.map trim)) = bodyIssue? d found := by
  cases found with
  | error c => rfl
  | ok lines =>
    have hbody := Source.squeeze_functionBody?_trim lines hname d.targetLine
    simp only [Except.map, bodyIssue?]
    cases htrim : Source.functionBody? (lines.map trim) d.targetLine d.targetFunction <;>
      cases hplain : Source.functionBody? lines d.targetLine d.targetFunction <;>
      rw [htrim, hplain] at hbody
    · cases hbody
    · cases hbody
    · simp only [Option.some_inj.mp hbody]

/-- The verdict over trimmed files is the verdict. -/
theorem judge_trim (hread : ∀ f lines, read f = .ok lines → ∀ l ∈ lines, '\n' ∉ l)
    (hnames : ∀ d ∈ e.dependencies, ∀ c ∈ d.targetFunction.toList, isBlank c = false) :
    judge (fun f => (read f).map (List.map trim)) enforce e = judge read enforce e := by
  have hproviders : ∀ ds, providerIssuesOf (fun f => (read f).map (List.map trim)) e.id ds =
      providerIssuesOf read e.id ds := by
    intro ds
    induction ds with
    | nil => rfl
    | cons d rest ih =>
      rw [providerIssuesOf, providerIssuesOf, ih, providerIssue?_trim (hread d.targetFile)]
  have hbodies : bodyIssuesOf (fun f => (read f).map (List.map trim)) e.dependencies =
      bodyIssuesOf read e.dependencies :=
    List.filterMap_congr fun d hd => bodyIssue?_trim (hnames d hd) _
  have hdeps : ∀ r, judgeDependencies (fun f => (read f).map (List.map trim)) (numbered e) r =
      judgeDependencies read (numbered e) r := by
    intro r
    simp only [judgeDependencies, numbered_id, numbered_dependencies, hproviders, hbodies]
  have hfit := unfitFault?_trim (numbered e) (read (numbered e).file)
  cases hfault : unfitFault? (numbered e) (read (numbered e).file) with
  | some f => rw [judge_of_fault rfl hfault, judge_of_fault rfl (hfit.trans hfault)]
  | none =>
    rw [hfault] at hfit
    cases hfile : read (numbered e).file with
    | error c =>
      rw [judge_of_error rfl hfault hfile, judge_of_error rfl hfit (by rw [hfile]; rfl)]
    | ok lines =>
      rw [judge_of_ok rfl hfault hfile, judge_of_ok rfl hfit (by rw [hfile]; rfl)]
      simp only [judgeLines, lineIssue?_trim, Marker.consumer_trim (hread _ lines hfile), hdeps]

/-! ## Two states of a project -/

/-- Two readings of a file that agree on whether it can be read and on its lines up to the blanks
around them. -/
def SameText : (found found' : Except Cause (List Line)) → Prop
  | .ok lines, .ok lines' => lines.map trim = lines'.map trim
  | .error _, .error _ => True
  | _, _ => False

instance : (found found' : Except Cause (List Line)) → Decidable (SameText found found')
  | .ok lines, .ok lines' => inferInstanceAs (Decidable (lines.map trim = lines'.map trim))
  | .error _, .error _ => isTrue trivial
  | .ok _, .error _ => isFalse nofun
  | .error _, .ok _ => isFalse nofun

/-- The files that the check of an entry reads. -/
def filesOf (e : Entry) : List String := e.file :: e.dependencies.map (·.targetFile)

theorem lf_not_mem_of_fresh {t : Tree} {root : Path} {file : String} {lines : List Line}
    (h : fresh t root file = .ok lines) : ∀ l ∈ lines, '\n' ∉ l := by
  unfold fresh Tree.sourceLines at h
  cases hread : t.read (Approval.pathOf root file) with
  | error f =>
    rw [hread] at h
    cases h
  | ok bytes =>
    rw [hread] at h
    cases h
    exact fun l hl => lf_not_mem_of_mem_sourceLines hl

theorem cause_of_read {t : Tree} {p : Path} {f : FileError} (h : t.read p = .error f) :
    f.cause = .nulInName ↔ p.nul?.isSome = true := by
  unfold Tree.read at h
  cases hnul : p.nul? with
  | some g =>
    have hlocate : t.locate p = .error .nulInName := by simp [Tree.locate, hnul]
    rw [hlocate] at h
    cases h
    simp
  | none =>
    have hne := Tree.locate_ne_nulInName t hnul
    cases hlocate : t.locate p with
    | error c =>
      rw [hlocate] at h hne
      cases h
      simpa using hne
    | ok l =>
      simp only [hlocate] at h
      split at h <;> cases h <;> simp

/-- Only the name of a file decides whether the system is asked for it. -/
theorem isRefusal_of_fresh {t t' : Tree} {root : Path} {file : String} {c c' : Cause}
    (h : fresh t root file = .error c) (h' : fresh t' root file = .error c') :
    c.isRefusal = c'.isRefusal := by
  have hiff : ∀ {t : Tree} {c : Cause}, fresh t root file = .error c →
      (c = .nulInName ↔ (Approval.pathOf root file).nul?.isSome = true) := by
    intro t c h
    unfold fresh Tree.sourceLines at h
    cases hread : t.read (Approval.pathOf root file) with
    | ok bytes =>
      rw [hread] at h
      cases h
    | error f =>
      rw [hread] at h
      cases h
      exact cause_of_read hread
  rw [Cause.isRefusal, Cause.isRefusal, Bool.eq_iff_iff, bne_iff_ne,
    bne_iff_ne, not_iff_not, hiff h, hiff h']

theorem SameText.cases {found found' : Except Cause (List Line)} (h : SameText found found') :
    (∃ lines lines', found = .ok lines ∧ found' = .ok lines' ∧ lines.map trim = lines'.map trim) ∨
      ∃ c c', found = .error c ∧ found' = .error c' := by
  match found, found', h with
  | .ok lines, .ok lines', h => exact .inl ⟨lines, lines', rfl, rfl, h⟩
  | .error c, .error c', _ => exact .inr ⟨c, c', rfl, rfl⟩

/-- Without the causes, two such readings of trimmed lines are one. -/
theorem SameText.unspecific_eq {t t' : Tree} {root : Path} {file : String}
    (h : SameText (fresh t root file) (fresh t' root file)) :
    ((fresh t root file).map (List.map trim)).mapError Cause.unspecific =
      ((fresh t' root file).map (List.map trim)).mapError Cause.unspecific := by
  obtain ⟨lines, lines', hfound, hfound', htrim⟩ | ⟨c, c', hfound, hfound'⟩ := h.cases
  · rw [hfound, hfound']
    exact congrArg Except.ok htrim
  · have hrefusal := isRefusal_of_fresh hfound hfound'
    have hc : c.unspecific = c'.unspecific := by
      cases c <;> cases c' <;> first | rfl | cases hrefusal
    rw [hfound, hfound']
    exact congrArg Except.error hc

theorem SameText.eq_of_causes {found found' : Except Cause (List Line)} (h : SameText found found')
    (hcauses : ∀ c c', found = .error c → found' = .error c' → c = c') :
    found.map (List.map trim) = found'.map (List.map trim) := by
  obtain ⟨lines, lines', rfl, rfl, htrim⟩ | ⟨c, c', rfl, rfl⟩ := h.cases
  · exact congrArg Except.ok htrim
  · rw [hcauses c c' rfl rfl]

/-- Verdicts ignore layout.  Take two states of a project in which every file that the entry names
can be read in both or in neither, and where it can be read its lines are equal when trimmed.  If
the names of the functions hold no blanks, a validator that has read nothing comes to the same
verdict in both or stops with the same fault, except that the issue of a file that cannot be read
quotes the system's error in that state.  Where these errors are the same too, the verdicts are
equal in full. -/
theorem verdict_ignores_layout {t t' : Tree} {root : Path} {enforce : Bool} {e : Entry}
    (hfiles : ∀ file ∈ filesOf e, SameText (fresh t root file) (fresh t' root file))
    (hnames : ∀ d ∈ e.dependencies, ∀ c ∈ d.targetFunction.toList, isBlank c = false) :
    ((({ root, enforce } : Validator).validate t e).1.map ValidationResult.withoutCauses =
      (({ root, enforce } : Validator).validate t' e).1.map ValidationResult.withoutCauses) ∧
    ((∀ file ∈ filesOf e, ∀ c c', fresh t root file = .error c → fresh t' root file = .error c' →
        c = c') →
      (({ root, enforce } : Validator).validate t e).1 =
        (({ root, enforce } : Validator).validate t' e).1) := by
  have hknown : ∀ t : Tree, (({ root, enforce } : Validator).validate t e).1 =
      judge (fun f => (fresh t root f).map (List.map trim)) enforce e := by
    intro t
    rw [validate_fst, known_of_cache_eq_nil rfl,
      judge_trim (fun f lines h => lf_not_mem_of_fresh h) hnames]
  have hdeps : ∀ {P : String → Prop}, (∀ file ∈ filesOf e, P file) →
      ∀ d ∈ e.dependencies, P d.targetFile :=
    fun h d hd => h _ (List.mem_cons_of_mem _ (List.mem_map_of_mem hd))
  rw [hknown, hknown]
  refine ⟨?_, fun hcauses => ?_⟩
  · have hsame : ∀ file ∈ filesOf e,
        ((fresh t root file).map (List.map trim)).mapError Cause.unspecific =
          ((fresh t' root file).map (List.map trim)).mapError Cause.unspecific :=
      fun file hfile => (hfiles file hfile).unspecific_eq
    rw [← judge_unspecific, ← judge_unspecific fun f => (fresh t' root f).map (List.map trim)]
    exact congrArg _ (judge_congr (hsame _ List.mem_cons_self) (hdeps hsame))
  · have hsame : ∀ file ∈ filesOf e,
        (fresh t root file).map (List.map trim) = (fresh t' root file).map (List.map trim) :=
      fun file hfile => (hfiles file hfile).eq_of_causes (hcauses file hfile)
    exact judge_congr (hsame _ List.mem_cons_self) (hdeps hsame)

/-- A project with a marked function on which an approved line relies. -/
def flushTree : Tree :=
  ⟨[(["p"], .dir), (["p", "a.js"], .file "// @validation-ignore null-access\nload().y;".toUTF8),
    (["p", "b.js"],
      .file "// @validation-dependency n-1\nfunction load() \x7b\nreturn q;\n\x7d".toUTF8)]⟩

/-- The same project, indented and with blanks behind its lines. -/
def indentedTree : Tree :=
  ⟨[(["p"], .dir),
    (["p", "a.js"], .file "\t// @validation-ignore null-access  \n  load().y;\t".toUTF8),
    (["p", "b.js"], .file
      ("    // @validation-dependency n-1\n  function load() \x7b \n" ++
        "\t\treturn q;\n  \x7d \n").toUTF8)]⟩

def relyingEntry : Entry :=
  { id := "n-1", file := "a.js", line := 2, approvedCodeSnapshot := "load().y;",
    approvedDate := "2025-03-04",
    dependencies := [
      { targetFile := "b.js", targetFunction := "load", targetLine := 2,
        codeSnapshot := "function load() \x7b return q; \x7d" }] }

theorem verdict_ignores_layout_sample :
    (∀ file ∈ filesOf relyingEntry, SameText (fresh flushTree ⟨.root, ["p"]⟩ file)
      (fresh indentedTree ⟨.root, ["p"]⟩ file)) ∧
    (∀ d ∈ relyingEntry.dependencies, ∀ c ∈ d.targetFunction.toList, isBlank c = false) ∧
    (({ root := ⟨.root, ["p"]⟩, enforce := true } : Validator).validate flushTree relyingEntry).1 =
      .ok { entryId := "n-1", file := "a.js", line := 2, state := .valid } ∧
    (({ root := ⟨.root, ["p"]⟩, enforce := true } : Validator).validate
      indentedTree relyingEntry).1 =
      .ok { entryId := "n-1", file := "a.js", line := 2, state := .valid } := by
  have hfiles : ∀ file ∈ filesOf relyingEntry, SameText (fresh flushTree ⟨.root, ["p"]⟩ file)
      (fresh indentedTree ⟨.root, ["p"]⟩ file) := by
    decide +kernel
  have hreadable : ∀ file ∈ filesOf relyingEntry,
      (fresh flushTree ⟨.root, ["p"]⟩ file).isOk = true := by
    decide +kernel
  have hnames : ∀ d ∈ relyingEntry.dependencies, ∀ c ∈ d.targetFunction.toList,
      isBlank c = false := by
    have hall : relyingEntry.dependencies.all
        (fun d => d.targetFunction.toList.all fun c => !isBlank c) = true := rfl
    exact fun d hd => not_blank_of_all (List.all_eq_true.mp hall d hd)
  have hverdict : (({ root := ⟨.root, ["p"]⟩, enforce := true } : Validator).validate flushTree
      relyingEntry).1 = .ok { entryId := "n-1", file := "a.js", line := 2, state := .valid } := by
    decide +kernel
  have hcauses : ∀ file ∈ filesOf relyingEntry, ∀ c c',
      fresh flushTree ⟨.root, ["p"]⟩ file = .error c →
        fresh indentedTree ⟨.root, ["p"]⟩ file = .error c' → c = c' := by
    intro file hfile c c' h
    have hok := hreadable file hfile
    rw [h] at hok
    cases hok
  refine ⟨hfiles, hnames, hverdict, ?_⟩
  rw [← (verdict_ignores_layout hfiles hnames).2 hcauses]
  exact hverdict

/-- A tree without files has no file that can be read. -/
theorem fresh_of_no_files {t : Tree} (h : ∀ n ∈ t.nodes, n.2 = .dir) (root : Path) (file : String) :
    ∃ c, fresh t root file = .error c := by
  have hdir : ∀ l content, t.at? l ≠ some (.file content) := by
    intro l content hat
    unfold Tree.at? at hat
    split at hat
    · cases hat
    · obtain ⟨n, hn, hfile⟩ := Option.map_eq_some_iff.mp hat
      rw [h n (List.mem_of_find?_eq_some hn)] at hfile
      cases hfile
  cases hfound : fresh t root file with
  | error c => exact ⟨c, rfl⟩
  | ok lines =>
    unfold fresh Tree.sourceLines Tree.read at hfound
    cases hlocate : t.locate (Approval.pathOf root file) with
    | error c =>
      rw [hlocate] at hfound
      cases hfound
    | ok l =>
      simp only [hlocate] at hfound
      split at hfound
      · rename_i heq
        split at heq
        · rename_i content hat
          exact absurd hat (hdir l content)
        · cases heq
        · cases heq
      · cases hfound

def lostEntry : Entry :=
  { id := "n-1", file := "a.js", line := 1, approvedCodeSnapshot := "x.y;",
    approvedDate := "2025-03-04" }

/-- Where no file can be read there are no lines to differ, and yet two verdicts differ: one quotes
that the file is missing, the other that it is a directory. -/
theorem verdict_quotes_system :
    ∃ t t' : Tree, (∀ file, SameText (fresh t ⟨.root, ["p"]⟩ file) (fresh t' ⟨.root, ["p"]⟩ file)) ∧
      lostEntry.unfit = [] ∧ lostEntry.dependencies = [] ∧
      (({ root := ⟨.root, ["p"]⟩ } : Validator).validate t lostEntry).1.toOption.map
        (·.issues.map (·.message)) = some ["File error: No such file or directory"] ∧
      (({ root := ⟨.root, ["p"]⟩ } : Validator).validate t' lostEntry).1.toOption.map
        (·.issues.map (·.message)) = some ["File error: Is a directory"] := by
  refine ⟨⟨[(["p"], .dir)]⟩, ⟨[(["p"], .dir), (["p", "a.js"], .dir)]⟩, fun file => ?_, rfl, rfl,
    by decide +kernel, by decide +kernel⟩
  obtain ⟨c, hc⟩ := fresh_of_no_files (t := ⟨[(["p"], .dir)]⟩) (by decide) ⟨.root, ["p"]⟩ file
  obtain ⟨c', hc'⟩ := fresh_of_no_files (t := ⟨[(["p"], .dir), (["p", "a.js"], .dir)]⟩) (by decide)
    ⟨.root, ["p"]⟩ file
  rw [hc, hc']
  trivial

end Validator

end NullAccess
