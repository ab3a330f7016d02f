import Mathlib.Data.List.InsertIdx
import NullAccess.Proofs.Drift.Snapshot

/-!
# A marker put above a declared line

A broken entry asks for a marker above the line where a function is declared.  The line that is put
there becomes the declared line itself: a dependency names its function by the number of its line,
and the function is one line lower now.  The comments above the declared line are those from before,
so an entry that lacked the marker still lacks it.

`marker_above_declared_line_overlooked` says so for an entry as an approval leaves it: where the
marker was missing the verdict stays the same, and the entry is valid after the insertion only if
the marker above the inserted line was there already and the function is still found.
-/

namespace NullAccess

/-! ## Comments above an inserted line -/

namespace Marker

theorem blockAbove_insertIdx {lines : List Line} {n : Int} (h : n ≤ lines.length) (l : Line) :
    blockAbove (lines.insertIdx (n - 1).toNat l) n = blockAbove lines n := by
  by_cases hfirst : n ≤ 1
  · rw [blockAbove, blockAbove, if_pos hfirst, if_pos hfirst]
  · have hle : (n - 1).toNat ≤ lines.length := by omega
    have hlong : ¬ lines.length + 1 < (n - 1).toNat := by omega
    rw [blockAbove, blockAbove, if_neg hfirst, if_neg hfirst,
      List.length_insertIdx_of_le_length hle, if_neg hlong, if_neg (Nat.not_lt.mpr hle),
      List.take_insertIdx_eq_take_of_le _ _ _ _ le_rfl]

theorem provider_insertIdx {lines : List Line} {n : Int} (h : n ≤ lines.length) (l : Line) :
    provider (lines.insertIdx (n - 1).toNat l) n = provider lines n := by
  rw [provider, provider, blockAbove_insertIdx h]

end Marker

namespace Validator

variable {read read' : String → Except Cause (List Line)} {e : Entry} {d : Dependency} {id : String}

/-! ## Verdicts that the markers decide -/

theorem providerLists_of_issue (h : providerIssue? id d (read d.targetFile) = .ok none) :
    providerLists read id d = true := by
  unfold providerLists
  cases hread : read d.targetFile with
  | error c =>
    rw [hread, providerIssue?] at h
    split at h <;> cases h
  | ok lines =>
    rw [hread] at h
    dsimp only [providerIssue?] at h ⊢
    cases hmarker : Marker.provider lines d.targetLine with
    | error f =>
      rw [hmarker] at h
      cases h
    | ok p =>
      rw [hmarker] at h
      dsimp only at h ⊢
      split at h
      · cases h
      · rename_i hfound
        split at h
        · rename_i hlisted
          have hfound' : p.found = true := by simpa using hfound
          rw [hfound', hlisted]
          rfl
        · cases h

/-- As long as a marker is missing, the verdict depends on the entry's file and the markers
alone. -/
theorem judge_congr_of_issues {enforce : Bool} (hfile : read e.file = read' e.file)
    (hissues : providerIssuesOf read e.id e.dependencies =
      providerIssuesOf read' e.id e.dependencies)
    (hmissing : providerIssuesOf read e.id e.dependencies ≠ .ok []) :
    judge read enforce e = judge read' enforce e := by
  have hdeps : ∀ r, judgeDependencies read (numbered e) r =
      judgeDependencies read' (numbered e) r := by
    intro r
    rw [judgeDependencies, judgeDependencies, numbered_id, numbered_dependencies, ← hissues]
    cases hfound : providerIssuesOf read e.id e.dependencies with
    | error f => rfl
    | ok issues =>
      cases issues with
      | nil => exact absurd hfound hmissing
      | cons i rest => rfl
  simp only [judge, judgeLines, numbered_file, hfile, hdeps]

theorem approves_iff_passes {root : Path} {t : Tree} (hfit : e.unfit = [])
    (hwithin : DeclaredWithin (fresh t root) e) :
    Approves { root } t e ↔ ∀ s, passes (fresh t root) false e s = true := by
  have hverdict : verdictOn { root } t e = judge (fresh t root) false e := by
    rw [verdictOn, validate_fst, known_of_cache_eq_nil rfl]
  rw [Approves, hverdict]
  by_cases hstops : Stops (fresh t root) false e
  · -- A check that stops gives no verdict, and an entry that passes every stage stops no check.
    obtain ⟨f, hf⟩ := judge_of_stops (numbered_of_unfit_eq_nil hfit) hwithin hstops
    rw [hf]
    have hnone : ¬ ∃ r, (Except.error f : Except Fault ValidationResult) = .ok r ∧
        r.isValid = true := by
      rintro ⟨r, hr, -⟩
      cases hr
    refine iff_of_false hnone fun hall => ?_
    have hlines : (fresh t root e.file).isOk = true := hall .file
    have hdeps : ∀ d ∈ e.dependencies, ∃ lines, fresh t root d.targetFile = .ok lines :=
      fun d hd => exists_lines_of_providerLists (List.all_eq_true.mp (hall .provider) d hd)
    cases hread : fresh t root e.file with
    | error c =>
      rw [hread] at hlines
      cases hlines
    | ok lines =>
      exact absurd hstops (not_stops (fun _ _ => unfit?_eq_none hfit _) hread
        (fun h => absurd h Bool.false_ne_true) hdeps)
  · obtain ⟨r, hr, -, hreports⟩ :=
      judge_of_not_stops (numbered_of_unfit_eq_nil hfit) hwithin hstops
    rw [hr, ← state_eq_valid_iff hreports]
    simp [ValidationResult.isValid]

end Validator

/-! ## Following the instruction -/

namespace Approval

open Store Validator

variable {s s' : Store} {t t' t'' : Tree} {today : String} {root : Path} {entry : Entry}
  {d : Dependency} {r : Request}

/-- The line that a broken entry asks for. -/
def providerLine (id : String) : Line := s!"// @validation-dependency {id}".toList

/-- Between two states of the files, the line that an entry asks for was put directly above the
declared line of a function, and the entry's own file stayed as it was. -/
structure MarkedAbove (root : Path) (t' t'' : Tree) (entry : Entry) (d : Dependency) : Prop where
  inserted : ∃ lines, fresh t' root d.targetFile = .ok lines ∧
    (1 ≤ d.targetLine ∧ d.targetLine ≤ lines.length) ∧
    fresh t'' root d.targetFile =
      .ok (lines.insertIdx (d.targetLine - 1).toNat (providerLine entry.id))
  kept : fresh t'' root entry.file = fresh t' root entry.file

namespace MarkedAbove

theorem providerIssue?_eq (h : MarkedAbove root t' t'' entry d) (id : String) :
    providerIssue? id d (fresh t'' root d.targetFile) =
      providerIssue? id d (fresh t' root d.targetFile) := by
  obtain ⟨lines, hlines, hdeclared, hinserted⟩ := h.inserted
  rw [hlines, hinserted]
  dsimp only [providerIssue?]
  rw [Marker.provider_insertIdx hdeclared.2]

theorem providerLists_eq (h : MarkedAbove root t' t'' entry d) (id : String) :
    providerLists (fresh t'' root) id d = providerLists (fresh t' root) id d := by
  obtain ⟨lines, hlines, hdeclared, hinserted⟩ := h.inserted
  unfold providerLists
  rw [hlines, hinserted]
  dsimp only
  rw [Marker.provider_insertIdx hdeclared.2]

theorem lineKept_eq (h : MarkedAbove root t' t'' entry d) :
    lineKept (fresh t'' root) entry = lineKept (fresh t' root) entry := by
  unfold lineKept
  rw [h.kept]

theorem verdictOn_eq (h : MarkedAbove root t' t'' entry d) (hone : entry.dependencies = [d])
    (hmissing : providerLists (fresh t' root) entry.id d = false) :
    verdictOn { root } t'' entry = verdictOn { root } t' entry := by
  have hissues : providerIssuesOf (fresh t'' root) entry.id entry.dependencies =
      providerIssuesOf (fresh t' root) entry.id entry.dependencies := by
    rw [hone, providerIssuesOf, providerIssuesOf, h.providerIssue?_eq]
    rfl
  have hsome : providerIssuesOf (fresh t'' root) entry.id entry.dependencies ≠ .ok [] := by
    rw [hissues, hone, providerIssuesOf]
    cases hissue : providerIssue? entry.id d (fresh t' root d.targetFile) with
    | error f =>
      intro h
      cases h
    | ok i =>
      cases i with
      | none =>
        rw [providerLists_of_issue hissue] at hmissing
        cases hmissing
      | some i =>
        intro h
        cases h
  rw [verdictOn, verdictOn, validate_fst, validate_fst, known_of_cache_eq_nil rfl,
    known_of_cache_eq_nil rfl]
  exact judge_congr_of_issues h.kept hissues hsome

end MarkedAbove

/-- An approval relies on one function, and the line that the entry asks for is put directly above
the declared line.  If the marker was missing, the verdict stays what it was.  The entry is valid
exactly if its line is kept, the comments above the inserted line list it, and the declared line,
which is the inserted one, still leads to the approved function. -/
theorem marker_above_declared_line_overlooked
    (happrove : approve s t today root r = ⟨t', s', .ok entry⟩)
    (hone : entry.dependencies = [d]) (hmarked : MarkedAbove root t' t'' entry d) :
    (providerLists (fresh t' root) entry.id d = false →
      verdictOn { root } t'' entry = verdictOn { root } t' entry ∧
        ¬ Approves { root } t'' entry) ∧
    (Approves { root } t'' entry ↔
      lineKept (fresh t' root) entry = true ∧ providerLists (fresh t' root) entry.id d = true ∧
        bodyKept (fresh t'' root) d = true) := by
  have hfit : entry.unfit = [] := unfit_of_approve happrove
  -- The inserted line has made the file longer, so the declared line is still one of its lines.
  have hwithin : DeclaredWithin (fresh t'' root) entry := by
    intro d' hd' lines' hlines'
    obtain ⟨lines, -, hdeclared, hinserted⟩ := hmarked.inserted
    obtain rfl : d' = d := by simpa [hone] using hd'
    rw [hinserted] at hlines'
    cases hlines'
    have hle : (d'.targetLine - 1).toNat ≤ lines.length := by omega
    rw [List.length_insertIdx_of_le_length hle]
    omega
  have hiff : Approves { root } t'' entry ↔
      lineKept (fresh t' root) entry = true ∧ providerLists (fresh t' root) entry.id d = true ∧
        bodyKept (fresh t'' root) d = true := by
    rw [approves_iff_passes hfit hwithin, ← hmarked.lineKept_eq, ← hmarked.providerLists_eq]
    constructor
    · intro hall
      have hprovider := hall .provider
      have hbody := hall .body
      simp only [passes, hone, List.all_cons, List.all_nil, Bool.and_true] at hprovider hbody
      exact ⟨hall .line, hprovider, hbody⟩
    · rintro ⟨hline, hprovider, hbody⟩ stage
      cases stage with
      | file =>
        unfold lineKept at hline
        cases hread : fresh t'' root entry.file with
        | error c => simp [hread] at hline
        | ok lines => simp [passes, hread, Except.isOk, Except.toBool]
      | line => exact hline
      | consumer => rfl
      | provider => simp [passes, hone, hprovider]
      | body => simp [passes, hone, hbody]
  refine ⟨fun hmissing => ⟨hmarked.verdictOn_eq hone hmissing, fun happroves => ?_⟩, hiff⟩
  have hlisted := (hiff.mp happroves).2.1
  rw [hmissing] at hlisted
  cases hlisted

/-- A project with a function that nothing is marked for. -/
def unmarkedTree : Tree :=
  ⟨[(["p"], .dir), (["p", "a.js"], .file "x.y;".toUTF8),
    (["p", "b.js"], .file "function load() \x7b \x7d".toUTF8)]⟩

/-- An approval that relies on the function. -/
def relyingApproval : Outcome Entry :=
  approve { path := { anchor := .root, parts := ["p", "l.json"] }, data := .empty "2025-03-04" }
    unmarkedTree "2025-03-04" sampleRoot
    { file := "a.js", line := 1, reason := "checked", id := "n-1",
      dependencies := [{ function := "load", line := 1, file := some "b.js" }] }

/-- The files with the line that the entry asks for above the function. -/
def markedAfterwards : Tree :=
  relyingApproval.tree.insert ["p", "b.js"]
    (.file "// @validation-dependency n-1\nfunction load() \x7b \x7d".toUTF8)

def loadDependency : Dependency :=
  { targetFile := "b.js", targetFunction := "load", targetLine := 1,
    codeSnapshot := "function load() \x7b \x7d" }

theorem marker_above_declared_line_overlooked_sample :
    ∃ t' s' entry, relyingApproval = ⟨t', s', .ok entry⟩ ∧
      MarkedAbove sampleRoot t' markedAfterwards entry loadDependency ∧
      verdictOn { root := sampleRoot } markedAfterwards entry =
        verdictOn { root := sampleRoot } t' entry := by
  have hdone : relyingApproval.result.toOption.map (fun e => (e.id, e.file, e.dependencies)) =
      some ("n-1", "a.js", [loadDependency]) := by
    decide +kernel
  have hbefore : fresh relyingApproval.tree sampleRoot "b.js" =
      .ok ["function load() \x7b \x7d".toList] := by
    decide +kernel
  have hafter : fresh markedAfterwards sampleRoot "b.js" =
      .ok [providerLine "n-1", "function load() \x7b \x7d".toList] := by
    decide +kernel
  have hkept :
      fresh markedAfterwards sampleRoot "a.js" = fresh relyingApproval.tree sampleRoot "a.js" := by
    decide +kernel
  have hmissing :
      providerLists (fresh relyingApproval.tree sampleRoot) "n-1" loadDependency = false := by
    decide +kernel
  rcases happroval : relyingApproval with ⟨t', s', e | entry⟩
  · rw [happroval] at hdone
    cases hdone
  · rw [happroval] at hdone hbefore hkept hmissing
    obtain ⟨hid, hrest⟩ := Prod.mk.inj (Option.some_inj.mp hdone)
    obtain ⟨hfile, hone⟩ := Prod.mk.inj hrest
    have hmarked : MarkedAbove sampleRoot t' markedAfterwards entry loadDependency := by
      rw [← hfile] at hkept
      refine ⟨⟨_, hbefore, by decide, ?_⟩, hkept⟩
      rw [hid]
      exact hafter
    rw [← hid] at hmissing
    exact ⟨t', s', entry, rfl, hmarked,
      ((marker_above_declared_line_overlooked happroval hone hmarked).1 hmissing).1⟩

/-- The approval is given and the marker is put where the entry asks for it, and the entry still
asks for it. -/
theorem marker_asked_for_again :
    (∃ t' s' entry, relyingApproval = ⟨t', s', .ok entry⟩ ∧
      entry.id.toList.all Marker.isIdChar = true) ∧
    (relyingApproval.result.toOption.bind fun entry =>
      (verdictOn { root := sampleRoot } markedAfterwards entry).toOption.map fun r =>
        (r.state, r.issues.map (·.message))) =
      some (.broken,
        ["Missing provider marker: add `// @validation-dependency n-1` above load in b.js:1"]) := by
  have hdone :
      (relyingApproval.result.toOption.any fun e => e.id.toList.all Marker.isIdChar) = true := by
    decide +kernel
  refine ⟨?_, by decide +kernel⟩
  rcases happroval : relyingApproval with ⟨t', s', e | entry⟩
  · rw [happroval] at hdone
    cases hdone
  · rw [happroval] at hdone
    exact ⟨t', s', entry, rfl, hdone⟩

end Approval

end NullAccess
