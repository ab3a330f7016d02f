import NullAccess.Scan

/-!
# Scans and their findings

A scan gives every finding the category of this analysis, and what it gives depends only on the
lines of the files that are scanned.
-/

namespace NullAccess

/-! ## Categories -/

namespace Finding

theorem category_of_finding? {s : Subject} {file : String} {n : Int} {raw : Line} {scope : Scope}
    {f : Finding} (h : s.finding? file n raw scope = some f) : f.category = nullAccessCategory := by
  unfold Subject.finding? at h
  split at h
  · cases h
  · obtain ⟨b, -, hb⟩ := Option.bind_eq_some_iff.mp h
    simp only [Subject.findingFor] at hb
    generalize (if b.originLine = n then b.originCol else 0) = offset at hb
    split at hb
    · cases hb
    · split at hb
      · cases hb
      · split at hb
        · cases hb
        · cases hb
          rfl

theorem category_of_mem_walk {file : String} {bindings : List Binding} {subjects : List Subject}
    {scope : Scope} {n : Int} {lines : List Line} {f : Finding}
    (h : f ∈ walk file bindings subjects scope n lines) : f.category = nullAccessCategory := by
  induction lines generalizing scope n with
  | nil => cases h
  | cons raw rest ih =>
    rw [walk, List.mem_append] at h
    rcases h with hhere | hrest
    · obtain ⟨s, -, hs⟩ := List.mem_filterMap.mp hhere
      exact category_of_finding? hs
    · exact ih hrest

theorem category_of_mem_generate {file : String} {lines : List Line} {bindings : List Binding}
    {extents : Extents} {f : Finding} (h : f ∈ generate file lines bindings extents) :
    f.category = nullAccessCategory := by
  rw [generate, List.mem_mergeSort] at h
  exact category_of_mem_walk h

theorem mem_of_mem_dropSafeIdioms {lines : List Line} {extents : Extents} {fs kept : List Finding}
    (h : dropSafeIdioms lines extents fs = .ok kept) : kept ⊆ fs := by
  induction fs generalizing kept with
  | nil =>
    cases h
    exact fun _ h => h
  | cons f rest ih =>
    rw [dropSafeIdioms] at h
    cases hsafe : isSafeIdiom lines extents f with
    | error fault => simp [hsafe, bind, Except.bind] at h
    | ok safe =>
      cases hrest : dropSafeIdioms lines extents rest with
      | error fault => simp [hsafe, hrest, bind, Except.bind] at h
      | ok others =>
        simp only [hsafe, hrest, bind, Except.bind, pure, Except.pure, Except.ok.injEq] at h
        subst h
        cases safe with
        | true => exact fun g hg => List.mem_cons_of_mem f (ih hrest hg)
        | false => exact List.cons_subset_cons f (ih hrest)

end Finding

namespace Scan

variable {t t' : Tree} {root : Path} {k : Classifier} {names : List String}

theorem report_eq_ok_iff {enforce : Bool} {l : Ledger} {d : DefaultSeverity}
    {target today time : String} {r : ScanReport} :
    (report t root enforce k names l d target today time).2 = .ok r ↔
      ∃ results, (files t root k names).2 = .ok results ∧
        ScanReport.assemble results l t { root, enforce } d target today time = .ok r := by
  show (files t root k names).2.bind _ = .ok r ↔ _
  cases (files t root k names).2 with
  | error f => simp [Except.bind]
  | ok results => simp [Except.bind]

theorem category_of_mem_file {name : String} {r : FileResult} {f : Finding}
    (h : (file t root k name).2 = .ok r) (hf : f ∈ r.findings) :
    f.category = nullAccessCategory := by
  unfold file at h
  split at h
  · split at h
    · cases h
      cases hf
    · cases h
  · rename_i lines _
    simp only at h
    cases hrun : Analysis.run name lines k with
    | error fault =>
      rw [hrun] at h
      cases h
    | ok findings =>
      rw [hrun] at h
      cases h
      unfold Analysis.run at hrun
      cases hdeclared : Declarations.ofLines k lines with
      | error fault => simp [hdeclared, bind, Except.bind] at hrun
      | ok d =>
        simp only [hdeclared, bind, Except.bind] at hrun
        exact Finding.category_of_mem_generate (Finding.mem_of_mem_dropSafeIdioms hrun hf)

theorem files_cons (t : Tree) (root : Path) (k : Classifier) (name : String) (rest : List String) :
    (files t root k (name :: rest)).2 =
      match (file t root k name).2 with
      | .error f => .error f
      | .ok r => (files t root k rest).2.map (r :: ·) := by
  rw [files, followedBy]
  cases (file t root k name).2 <;> rfl

theorem category_of_mem_files {results : List FileResult} {r : FileResult} {f : Finding}
    (h : (files t root k names).2 = .ok results) (hr : r ∈ results) (hf : f ∈ r.findings) :
    f.category = nullAccessCategory := by
  induction names generalizing results with
  | nil =>
    cases h
    cases hr
  | cons name rest ih =>
    rw [files_cons] at h
    cases hfile : (file t root k name).2 with
    | error fault =>
      rw [hfile] at h
      cases h
    | ok r' =>
      cases hrest : (files t root k rest).2 with
      | error fault =>
        rw [hfile, hrest] at h
        cases h
      | ok others =>
        rw [hfile, hrest] at h
        cases h
        rcases List.mem_cons.mp hr with rfl | hother
        · exact category_of_mem_file hfile hf
        · exact ih hrest hother

theorem files_congr
    (h : ∀ name ∈ names,
      t'.sourceLines (root.join (Path.ofText name)) =
        t.sourceLines (root.join (Path.ofText name))) :
    files t' root k names = files t root k names := by
  induction names with
  | nil => rfl
  | cons name rest ih =>
    have hfile : file t' root k name = file t root k name := by
      unfold file
      rw [h name List.mem_cons_self]
    rw [files, files, hfile, ih fun other hother => h other (List.mem_cons_of_mem name hother)]

end Scan

end NullAccess
