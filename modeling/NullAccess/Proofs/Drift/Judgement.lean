import Mathlib.Data.List.Basic
import NullAccess.Drift.Validate

/-!
# The verdict without the cache

A validator keeps what it reads, so the verdict on an entry seems to depend on the entries before
it.  It does not: a file that was read once is never read again, so what the validator takes a file
to hold (`known`) stays the same from its first check to its last.  `judge` is the verdict as a
function of that alone, and `validate_fst` says that it is the verdict the validator gives.
-/

namespace NullAccess.Validator

/-- What the validator takes a file to hold: what it read before, or else what is there now. -/
def known (v : Validator) (t : Tree) (file : String) : Except Cause (List Line) :=
  match v.cache.find? (·.1 == file) with
  | some (_, lines) => lines
  | none => fresh t v.root file

theorem known_of_cache_eq_nil {v : Validator} (h : v.cache = []) (t : Tree) :
    v.known t = fresh t v.root := by
  funext file
  simp [known, h]

/-- A later state of a validator: it goes by the same rules and takes every file to hold the
same. -/
structure Continues (t : Tree) (v w : Validator) : Prop where
  known : w.known t = v.known t
  enforce : w.enforce = v.enforce

theorem Continues.refl (t : Tree) (v : Validator) : Continues t v v := ⟨rfl, rfl⟩

theorem Continues.trans {t : Tree} {u v w : Validator} (h : Continues t u v)
    (h' : Continues t v w) : Continues t u w :=
  ⟨h'.known.trans h.known, h'.enforce.trans h.enforce⟩

/-! ## Reading -/

theorem readLines_fst (v : Validator) (t : Tree) (file : String) :
    (v.readLines t file).1 = v.known t file := by
  simp only [readLines, known]
  cases v.cache.find? (·.1 == file) <;> rfl

theorem continues_readLines (v : Validator) (t : Tree) (file : String) :
    Continues t v (v.readLines t file).2 := by
  unfold readLines
  split
  · exact Continues.refl t v
  · rename_i hnone
    refine ⟨?_, rfl⟩
    funext other
    -- Only the file itself is now found in the cache, where it stands as it was read.
    by_cases h : file = other
    · subst h
      simp [known, hnone]
    · have hne : (file == other) = false := by simpa using h
      simp [known, hne]

theorem readLines_eq (v : Validator) (t : Tree) (file : String) :
    ∃ w, v.readLines t file = (v.known t file, w) ∧ Continues t v w :=
  ⟨(v.readLines t file).2, Prod.ext (readLines_fst v t file) rfl, continues_readLines v t file⟩

/-! ## The verdict

`read` stands for what the files hold. -/

variable (read : String → Except Cause (List Line))

/-- The issues of all markers of functions, in order. -/
def providerIssuesOf (id : String) : List Dependency → Except Fault (List ValidationIssue)
  | [] => .ok []
  | d :: rest =>
    match providerIssue? id d (read d.targetFile) with
    | .error f => .error f
    | .ok i =>
      match providerIssuesOf id rest with
      | .error f => .error f
      | .ok is => .ok (i.toList ++ is)

/-- The issues of all bodies of functions, in order. -/
def bodyIssuesOf (ds : List Dependency) : List ValidationIssue :=
  ds.filterMap fun d => bodyIssue? d (read d.targetFile)

/-- The verdict of the last two stages. -/
def judgeDependencies (e : Entry) (r : ValidationResult) : Except Fault ValidationResult :=
  match providerIssuesOf read e.id e.dependencies with
  | .error f => .error f
  | .ok [] =>
    match bodyIssuesOf read e.dependencies with
    | [] => .ok { r with state := .valid }
    | issues => .ok (failed r (bodyState issues) issues)
  | .ok issues => .ok (failed r .broken issues)

/-- The verdict of the stages after the first. -/
def judgeLines (enforce : Bool) (e : Entry) (lines : List Line) : Except Fault ValidationResult :=
  let r : ValidationResult := { entryId := e.id, file := e.file, line := e.line }
  match lineIssue? e lines with
  | some i => .ok (failed r .drifted [i])
  | none =>
    if enforce then
      match Marker.consumer lines e.line with
      | .error f => .error f
      | .ok m =>
        if !m.found then .ok (failed r .broken [consumerIssue e])
        else judgeDependencies read e { r with warnings := consumerWarning e m }
    else judgeDependencies read e r

/-- The verdict on an entry. -/
def judge (enforce : Bool) (given : Entry) : Except Fault ValidationResult :=
  let e := numbered given
  match unfitFault? e (read e.file), read e.file with
  | some f, _ => .error f
  | none, .error cause =>
    if cause.isRefusal then
      .ok (failed { entryId := e.id, file := e.file, line := e.line } .broken
        [fileIssue .fileError cause e.file e.line])
    else .error .nulInName
  | none, .ok lines => judgeLines read enforce e lines

variable {read}

/-! ## The validator gives this verdict -/

theorem providerIssues_eq (v : Validator) (t : Tree) (id : String) (ds : List Dependency) :
    ∃ w, v.providerIssues t id ds = (providerIssuesOf (v.known t) id ds, w) ∧
      Continues t v w := by
  induction ds generalizing v with
  | nil => exact ⟨v, rfl, Continues.refl t v⟩
  | cons d rest ih =>
    obtain ⟨v₁, hread, hv₁⟩ := readLines_eq v t d.targetFile
    simp only [providerIssues, providerIssuesOf, hread]
    cases providerIssue? id d (v.known t d.targetFile) with
    | error f => exact ⟨v₁, rfl, hv₁⟩
    | ok i =>
      obtain ⟨v₂, hrest, hv₂⟩ := ih v₁
      refine ⟨v₂, ?_, hv₁.trans hv₂⟩
      rw [hv₁.known] at hrest
      simp only [hrest]
      cases providerIssuesOf (v.known t) id rest <;> rfl

theorem bodyIssues_eq (v : Validator) (t : Tree) (ds : List Dependency) :
    ∃ w, v.bodyIssues t ds = (bodyIssuesOf (v.known t) ds, w) ∧ Continues t v w := by
  induction ds generalizing v with
  | nil => exact ⟨v, rfl, Continues.refl t v⟩
  | cons d rest ih =>
    obtain ⟨v₁, hread, hv₁⟩ := readLines_eq v t d.targetFile
    obtain ⟨v₂, hrest, hv₂⟩ := ih v₁
    rw [hv₁.known] at hrest
    refine ⟨v₂, ?_, hv₁.trans hv₂⟩
    simp only [bodyIssues, hread, hrest, bodyIssuesOf]
    cases h : bodyIssue? d (v.known t d.targetFile) <;> simp [h]

theorem validateDependencies_eq (v : Validator) (t : Tree) (e : Entry) (r : ValidationResult) :
    ∃ w, v.validateDependencies t e r = (judgeDependencies (v.known t) e r, w) ∧
      Continues t v w := by
  obtain ⟨v₁, hproviders, hv₁⟩ := providerIssues_eq v t e.id e.dependencies
  obtain ⟨v₂, hbodies, hv₂⟩ := bodyIssues_eq v₁ t e.dependencies
  rw [hv₁.known] at hbodies
  simp only [validateDependencies, judgeDependencies, hproviders]
  cases providerIssuesOf (v.known t) e.id e.dependencies with
  | error f => exact ⟨v₁, rfl, hv₁⟩
  | ok issues =>
    cases issues with
    | cons i is => exact ⟨v₁, rfl, hv₁⟩
    | nil =>
      refine ⟨v₂, ?_, hv₁.trans hv₂⟩
      simp only [hbodies]
      cases bodyIssuesOf (v.known t) e.dependencies <;> rfl

theorem validateLines_eq (v : Validator) (t : Tree) (e : Entry) (lines : List Line) :
    ∃ w, v.validateLines t e lines = (judgeLines (v.known t) v.enforce e lines, w) ∧
      Continues t v w := by
  simp only [validateLines, judgeLines]
  cases lineIssue? e lines with
  | some i => exact ⟨v, rfl, Continues.refl t v⟩
  | none =>
    by_cases henforce : v.enforce = true
    · simp only [henforce, if_true]
      cases Marker.consumer lines e.line with
      | error f => exact ⟨v, rfl, Continues.refl t v⟩
      | ok m =>
        by_cases hfound : m.found = true
        · simp only [hfound, Bool.not_true, Bool.false_eq_true, if_false]
          exact validateDependencies_eq v t e _
        · simp only [hfound, Bool.not_false, if_true]
          exact ⟨v, rfl, Continues.refl t v⟩
    · simp only [henforce, Bool.false_eq_true, if_false]
      exact validateDependencies_eq v t e _

theorem validate_eq (v : Validator) (t : Tree) (given : Entry) :
    ∃ w, v.validate t given = (judge (v.known t) v.enforce given, w) ∧ Continues t v w := by
  obtain ⟨v₁, hread, hv₁⟩ := readLines_eq v t (numbered given).file
  simp only [validate, judge, hread]
  cases unfitFault? (numbered given) (v.known t (numbered given).file) with
  | some f => exact ⟨v₁, rfl, hv₁⟩
  | none =>
    cases v.known t (numbered given).file with
    | error cause => by_cases h : cause.isRefusal = true <;> exact ⟨v₁, by simp [h], hv₁⟩
    | ok lines =>
      obtain ⟨v₂, hlines, hv₂⟩ := validateLines_eq v₁ t (numbered given) lines
      rw [hv₁.known, hv₁.enforce] at hlines
      exact ⟨v₂, hlines, hv₁.trans hv₂⟩

theorem validate_fst (v : Validator) (t : Tree) (e : Entry) :
    (v.validate t e).1 = judge (v.known t) v.enforce e := by
  obtain ⟨w, h, -⟩ := validate_eq v t e
  rw [h]

/-- An earlier check does not change a later verdict. -/
theorem Continues.validate_fst {t : Tree} {v w : Validator} (h : Continues t v w) (e : Entry) :
    (w.validate t e).1 = (v.validate t e).1 := by
  rw [Validator.validate_fst, Validator.validate_fst, h.known, h.enforce]

/-! ## What the verdict depends on -/

theorem numbered_id (e : Entry) : (numbered e).id = e.id := by
  unfold numbered
  split <;> rfl

theorem numbered_file (e : Entry) : (numbered e).file = e.file := by
  unfold numbered
  split <;> rfl

theorem numbered_dependencies (e : Entry) : (numbered e).dependencies = e.dependencies := by
  unfold numbered
  split <;> rfl

variable {read' : String → Except Cause (List Line)}

theorem providerIssuesOf_congr {id : String} {ds : List Dependency}
    (h : ∀ d ∈ ds, read d.targetFile = read' d.targetFile) :
    providerIssuesOf read id ds = providerIssuesOf read' id ds := by
  induction ds with
  | nil => rfl
  | cons d rest ih =>
    rw [providerIssuesOf, providerIssuesOf, h d List.mem_cons_self,
      ih fun d' hd' => h d' (List.mem_cons_of_mem d hd')]

theorem bodyIssuesOf_congr {ds : List Dependency}
    (h : ∀ d ∈ ds, read d.targetFile = read' d.targetFile) :
    bodyIssuesOf read ds = bodyIssuesOf read' ds :=
  List.filterMap_congr fun d hd => by rw [h d hd]

/-- The verdict on an entry depends only on the files that the entry names. -/
theorem judge_congr {enforce : Bool} {e : Entry} (hfile : read e.file = read' e.file)
    (hdeps : ∀ d ∈ e.dependencies, read d.targetFile = read' d.targetFile) :
    judge read enforce e = judge read' enforce e := by
  have hdeps' : ∀ r, judgeDependencies read (numbered e) r =
      judgeDependencies read' (numbered e) r := by
    intro r
    simp only [judgeDependencies, numbered_dependencies, providerIssuesOf_congr hdeps,
      bodyIssuesOf_congr hdeps]
  simp only [judge, judgeLines, numbered_file, hfile, hdeps']

/-! ## The values of an entry -/

variable {e : Entry} {lines : List Line}

theorem unfit?_eq_none (h : e.unfit = []) (name : String) : e.unfit? name = none := by
  rw [Entry.unfit?, h]
  rfl

theorem numbered_of_unfit_eq_nil (h : e.unfit = []) : numbered e = e := by
  rw [numbered, unfit?_eq_none h]
  rfl

theorem unfitFault?_of_unfit_eq_nil (h : e.unfit = []) (found : Except Cause (List Line)) :
    unfitFault? e found = none := by
  cases found <;> simp [unfitFault?, unfit?_eq_none h]

variable {given : Entry} {enforce : Bool}

theorem judge_of_fault {f : Fault} (he : numbered given = e)
    (hfault : unfitFault? e (read e.file) = some f) : judge read enforce given = .error f := by
  simp only [judge, he, hfault]

theorem judge_of_error {c : Cause} (he : numbered given = e)
    (hfit : unfitFault? e (read e.file) = none) (hread : read e.file = .error c) :
    judge read enforce given =
      if c.isRefusal then
        .ok (failed { entryId := e.id, file := e.file, line := e.line } .broken
          [fileIssue .fileError c e.file e.line])
      else .error .nulInName := by
  rw [hread] at hfit
  simp only [judge, he, hread, hfit]

theorem judge_of_ok (he : numbered given = e) (hfit : unfitFault? e (read e.file) = none)
    (hread : read e.file = .ok lines) :
    judge read enforce given = judgeLines read enforce e lines := by
  rw [hread] at hfit
  simp only [judge, he, hread, hfit]

end NullAccess.Validator
