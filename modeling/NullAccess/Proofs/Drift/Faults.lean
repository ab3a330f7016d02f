import NullAccess.Proofs.Drift.Stages

/-!
# Checks that stop

Which checks come to no verdict, and for which fault, when nothing is assumed about where the
functions are declared that an entry relies on.  The lines above a function are looked at before it
is asked whether the file still has them, so a function that is declared more than one line past the
end of its file stops the check (`judge_eq_error_iff`).  Where there is a verdict, a function past
the end of its file is never passed (`state_of_pastEnd`).
-/

namespace NullAccess.Validator

section

variable (read : String → Except Cause (List Line))

/-- A function is declared past the end of its file. -/
def PastEnd (d : Dependency) : Prop :=
  ∃ lines, read d.targetFile = .ok lines ∧ lines.length < d.targetLine

/-- Why the marker of a function cannot be looked for. -/
def markerFault? (d : Dependency) : Option Fault :=
  match read d.targetFile with
  | .error c => if c.isRefusal then none else some .nulInName
  | .ok lines => if lines.length + 1 < d.targetLine then some .noSuchLine else none

/-- The check of an entry stops with a fault. -/
inductive StopsWith (enforce : Bool) (e : Entry) : Fault → Prop where
  /-- A value does not fit its field, and the check needs it. -/
  | unfit {f : Fault} (h : unfitFault? e (read e.file) = some f) : StopsWith enforce e f
  /-- No file can have the name of the entry's file. -/
  | name (fit : unfitFault? e (read e.file) = none) (h : read e.file = .error .nulInName) :
      StopsWith enforce e .nulInName
  /-- The enforced marker above the line holds a number that is too long. -/
  | numeral {lines : List Line} (fit : unfitFault? e (read e.file) = none)
      (file : read e.file = .ok lines) (line : lineKept read e = true) (enforced : enforce = true)
      (h : Marker.consumer lines e.line = .error .longNumeral) : StopsWith enforce e .longNumeral
  /-- All is in order up to the functions, and this is the fault of the first whose marker cannot be
  looked for. -/
  | marker {f : Fault} (fit : unfitFault? e (read e.file) = none) (line : lineKept read e = true)
      (consumer : enforce = true → consumerFound read e = true)
      (h : e.dependencies.findSome? (markerFault? read) = some f) : StopsWith enforce e f

end

variable {read : String → Except Cause (List Line)} {e given : Entry} {lines : List Line}
  {d : Dependency} {ds : List Dependency} {id : String} {enforce : Bool} {f : Fault}
  {r r₀ : ValidationResult}

/-! ## Markers of functions -/

theorem blockAbove_eq_error_iff {n : Int} :
    Marker.blockAbove lines n = .error f ↔ lines.length + 1 < n ∧ f = .noSuchLine := by
  unfold Marker.blockAbove
  by_cases hle : n ≤ 1
  · rw [if_pos hle]
    exact ⟨nofun, fun h => absurd h.1 (by omega)⟩
  · rw [if_neg hle]
    by_cases hlt : lines.length < (n - 1).toNat
    · rw [if_pos hlt, Except.error.injEq]
      exact ⟨fun h => ⟨by omega, h.symm⟩, fun h => h.2.symm⟩
    · rw [if_neg hlt]
      exact ⟨nofun, fun h => absurd h.1 (by omega)⟩

theorem providerIssue?_eq_error_iff :
    providerIssue? id d (read d.targetFile) = .error f ↔ markerFault? read d = some f := by
  unfold markerFault? providerIssue?
  cases read d.targetFile with
  | error c => by_cases hc : c.isRefusal = true <;> simp [hc]
  | ok lines =>
    simp only [Marker.provider]
    cases hb : Marker.blockAbove lines d.targetLine with
    | error g =>
      obtain ⟨hlt, rfl⟩ := blockAbove_eq_error_iff.mp hb
      simp [hlt, Except.map]
    | ok b =>
      have hle : ¬ (lines.length : Int) + 1 < d.targetLine := by
        intro hlt
        rw [blockAbove_eq_error_iff.mpr ⟨hlt, rfl⟩] at hb
        cases hb
      simp only [Except.map, if_neg hle]
      refine ⟨fun h => ?_, fun h => by cases h⟩
      split at h
      · cases h
      · split at h <;> cases h

/-- The markers are looked for in order, and the first that cannot be looked for ends the check. -/
theorem providerIssuesOf_eq_error_iff :
    providerIssuesOf read id ds = .error f ↔ ds.findSome? (markerFault? read) = some f := by
  induction ds with
  | nil => simp [providerIssuesOf]
  | cons d rest ih =>
    rw [providerIssuesOf, List.findSome?_cons]
    cases hd : providerIssue? id d (read d.targetFile) with
    | error g => simp [providerIssue?_eq_error_iff.mp hd]
    | ok i =>
      have hnone : markerFault? read d = none := by
        cases hg : markerFault? read d with
        | none => rfl
        | some g =>
          rw [providerIssue?_eq_error_iff.mpr hg] at hd
          cases hd
      simp only [hnone, ← ih]
      cases providerIssuesOf read id rest <;> simp

/-! ## The check as a whole -/

theorem judgeDependencies_eq_error_iff :
    judgeDependencies read e r₀ = .error f ↔
      e.dependencies.findSome? (markerFault? read) = some f := by
  have hiff : providerIssuesOf read e.id e.dependencies = .error f ↔
      e.dependencies.findSome? (markerFault? read) = some f := providerIssuesOf_eq_error_iff
  rw [← hiff]
  cases hissues : providerIssuesOf read e.id e.dependencies with
  | error g => simp only [judgeDependencies, hissues, Except.error.injEq]
  | ok issues =>
    by_cases hnil : issues = []
    · rw [judgeDependencies_of_nil (hnil ▸ hissues)]
      split <;> simp
    · rw [judgeDependencies_of_ne_nil hissues hnil]
      simp

theorem lineIssue?_eq_none_iff (hread : read e.file = .ok lines) :
    lineIssue? e lines = none ↔ lineKept read e = true := by
  refine ⟨fun h => ?_, lineIssue?_of_lineKept hread⟩
  by_contra hkept
  obtain ⟨i, hi, -⟩ := lineIssue?_of_not_lineKept hread (by simpa using hkept)
  rw [h] at hi
  cases hi

theorem judgeLines_eq_error_iff (hread : read e.file = .ok lines) :
    judgeLines read enforce e lines = .error f ↔
      lineKept read e = true ∧
        (enforce = true ∧ Marker.consumer lines e.line = .error .longNumeral ∧ f = .longNumeral ∨
          (enforce = true → consumerFound read e = true) ∧
            e.dependencies.findSome? (markerFault? read) = some f) := by
  by_cases hline : lineKept read e = true
  · rw [judgeLines, (lineIssue?_eq_none_iff hread).mpr hline]
    cases enforce with
    | false => simp [hline, judgeDependencies_eq_error_iff]
    | true =>
      cases hm : Marker.consumer lines e.line with
      | error g =>
        obtain rfl := consumer_eq_error hread hline hm
        simp [hline, consumerFound, hread, hm, eq_comm]
      | ok m =>
        by_cases hfound : m.found = true <;>
          simp [hline, consumerFound, hread, hm, hfound, judgeDependencies_eq_error_iff]
  · obtain ⟨i, hi, -⟩ := lineIssue?_of_not_lineKept hread (by simpa using hline)
    simp [judgeLines, hi, hline]

/-- A check comes to no verdict for exactly these faults. -/
theorem judge_eq_error_iff (he : numbered given = e) :
    judge read enforce given = .error f ↔ StopsWith read enforce e f := by
  cases hfit : unfitFault? e (read e.file) with
  | some g =>
    rw [judge_of_fault he hfit, Except.error.injEq]
    constructor
    · rintro rfl
      exact .unfit hfit
    · intro h
      cases h <;> simp_all
  | none =>
    cases hread : read e.file with
    | error c =>
      have hline : lineKept read e = false := by simp [lineKept, hread]
      rw [judge_of_error he hfit hread]
      by_cases hc : c = .nulInName
      · subst hc
        simp only [Cause.isRefusal, bne_self_eq_false, Bool.false_eq_true, if_false,
          Except.error.injEq]
        constructor
        · rintro rfl
          exact .name hfit hread
        · intro h
          cases h <;> simp_all
      · rw [if_pos (isRefusal_of_ne hc)]
        simp only [reduceCtorEq, false_iff]
        intro h
        cases h <;> simp_all
    | ok lines =>
      rw [judge_of_ok he hfit hread, judgeLines_eq_error_iff hread]
      constructor
      · rintro ⟨hline, ⟨henforce, hm, rfl⟩ | ⟨hfound, hfault⟩⟩
        · exact .numeral hfit hread hline henforce hm
        · exact .marker hfit hline hfound hfault
      · intro h
        cases h with
        | unfit h => simp [hfit] at h
        | name _ h => simp [hread] at h
        | numeral _ hfile hline henforce hm =>
          rw [hread, Except.ok.injEq] at hfile
          exact ⟨hline, .inl ⟨henforce, hfile ▸ hm, rfl⟩⟩
        | marker _ hline hfound hfault => exact ⟨hline, .inr ⟨hfound, hfault⟩⟩

/-! ## Functions past the end of their files -/

theorem bodyIssue?_of_pastEnd (h : PastEnd read d) : bodyIssue? d (read d.targetFile) ≠ none := by
  obtain ⟨lines, hread, hlt⟩ := h
  have hnone : Source.functionBody? lines d.targetLine d.targetFunction = none := by
    rw [Source.functionBody?, if_pos (.inr hlt)]
  simp [hread, bodyIssue?, hnone]

theorem bodyState_cases (issues : List ValidationIssue) :
    bodyState issues = .broken ∨ bodyState issues = .drifted := by
  unfold bodyState
  split
  · exact .inl rfl
  · exact .inr rfl

theorem judgeDependencies_state (hpast : ∃ d ∈ e.dependencies, PastEnd read d)
    (h : judgeDependencies read e r₀ = .ok r) : r.state = .broken ∨ r.state = .drifted := by
  cases hissues : providerIssuesOf read e.id e.dependencies with
  | error g =>
    rw [judgeDependencies, hissues] at h
    cases h
  | ok issues =>
    by_cases hnil : issues = []
    · have hbodies : bodyIssuesOf read e.dependencies ≠ [] := by
        obtain ⟨d, hd, hd'⟩ := hpast
        intro hempty
        exact bodyIssue?_of_pastEnd hd' (List.filterMap_eq_nil_iff.mp hempty d hd)
      rw [judgeDependencies_of_nil (hnil ▸ hissues), if_neg hbodies] at h
      cases h
      exact bodyState_cases _
    · rw [judgeDependencies_of_ne_nil hissues hnil] at h
      cases h
      exact .inl rfl

/-- An entry that relies on a function past the end of its file is broken or drifted, if there is a
verdict on it at all. -/
theorem state_of_pastEnd (hpast : ∃ d ∈ given.dependencies, PastEnd read d)
    (h : judge read enforce given = .ok r) : r.state = .broken ∨ r.state = .drifted := by
  rw [← numbered_dependencies given] at hpast
  simp only [judge] at h
  split at h
  · cases h
  · split at h
    · cases h
      exact .inl rfl
    · cases h
  · rw [judgeLines] at h
    split at h
    · cases h
      exact .inr rfl
    · split at h
      · split at h
        · cases h
        · split at h
          · cases h
            exact .inl rfl
          · exact judgeDependencies_state hpast h
      · exact judgeDependencies_state hpast h

/-- Every check ends with a verdict, or stops with the fault that its entry and the files call for.
An entry that relies on a function past the end of its file is then broken or drifted. -/
theorem validate_gives_verdict_unless_stopped (v : Validator) (t : Tree) (e : Entry) :
    (∃ f, (v.validate t e).1 = .error f ∧ StopsWith (v.known t) v.enforce (numbered e) f) ∨
    (∀ f, ¬ StopsWith (v.known t) v.enforce (numbered e) f) ∧
      ∃ r, (v.validate t e).1 = .ok r ∧
        ((∃ d ∈ e.dependencies, PastEnd (v.known t) d) →
          r.state = .broken ∨ r.state = .drifted) := by
  rw [validate_fst]
  cases hverdict : judge (v.known t) v.enforce e with
  | error f => exact .inl ⟨f, rfl, (judge_eq_error_iff rfl).mp hverdict⟩
  | ok r =>
    refine .inr ⟨fun f hstops => ?_, r, rfl, fun hpast => state_of_pastEnd hpast hverdict⟩
    rw [(judge_eq_error_iff rfl).mpr hstops] at hverdict
    cases hverdict

/-- A file that lost its lines after the approval: the function that the entry relies on was
declared at line 5, and one line is left.  The check of the entry stops. -/
theorem validate_shortened_dependency :
    ∃ (v : Validator) (t : Tree) (e : Entry), v.cache = [] ∧ v.enforce = false ∧ e.unfit = [] ∧
      (∃ d ∈ e.dependencies, PastEnd (v.known t) d) ∧
      (v.validate t e).1 = .error .noSuchLine := by
  refine ⟨{ root := { anchor := .root, parts := ["p"] } },
    ⟨[(["p"], .dir), (["p", "a.js"], .file "user.name;\n".toUTF8),
      (["p", "b.js"], .file "// @validation-dependency n-1\n".toUTF8)]⟩,
    { id := "n-1", file := "a.js", line := 1, approvedCodeSnapshot := "user.name;",
      approvedDate := "2025-03-04",
      dependencies := [{ targetFile := "b.js", targetFunction := "load", targetLine := 5 }] },
    rfl, rfl, rfl, ⟨_, List.mem_singleton_self _, ?_⟩, by decide +kernel⟩
  exact ⟨["// @validation-dependency n-1".toList], by decide +kernel, by decide⟩

end NullAccess.Validator
