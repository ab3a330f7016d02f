import Mathlib.Data.List.Forall2
import NullAccess.Proofs.Drift.Judgement

/-!
# The exact verdict

What each of the five stages of a check asks for, stated on its own, and the theorem that a verdict
is decided by the first stage that does not hold: `judge_of_not_stops` with the results of that
stage, and `judge_of_stops` for the checks that come to no verdict.

A check comes to no verdict in three ways.  A file name with a NUL character in it is not refused by
the system, it is not even asked, and the check does not count that as a file that cannot be read.
A marker that is enforced may name a line in so many digits that it denotes no number.  And an
update may have put a value into the entry's file, line or snapshot that the check cannot use.
-/

namespace NullAccess.Validator

/-- The stages of a check, in order. -/
inductive Stage where
  | file
  | line
  | consumer
  | provider
  | body
  deriving DecidableEq, Repr

namespace Stage

/-- The order in which the stages are checked. -/
def all : List Stage := [file, line, consumer, provider, body]

/-- The state of an entry that fails first at a stage. -/
def state : Stage → DriftState
  | file | consumer | provider => .broken
  | line | body => .drifted

end Stage

section

variable (read : String → Except Cause (List Line))

/-! ## What the stages ask for -/

/-- The line is one of the file's, and without the blanks around it the approved code. -/
def lineKept (e : Entry) : Bool :=
  match read e.file with
  | .error _ => false
  | .ok lines =>
    decide (1 ≤ e.line ∧ e.line ≤ lines.length) &&
      lines[(e.line - 1).toNat]?.map Text.trim == some (Text.trim e.approvedCodeSnapshot.toList)

/-- A marker stands above the line. -/
def consumerFound (e : Entry) : Bool :=
  match read e.file with
  | .error _ => false
  | .ok lines =>
    match Marker.consumer lines e.line with
    | .error _ => false
    | .ok m => m.found

/-- The function's file can be read, and a marker above the function lists the id. -/
def providerLists (id : String) (d : Dependency) : Bool :=
  match read d.targetFile with
  | .error _ => false
  | .ok lines =>
    match Marker.provider lines d.targetLine with
    | .error _ => false
    | .ok p => p.found && p.whitelistIds.contains id

/-- The function is declared inside its file, and its text is the approved one up to layout. -/
def bodyKept (d : Dependency) : Bool :=
  match read d.targetFile with
  | .error _ => false
  | .ok lines =>
    decide (1 ≤ d.targetLine ∧ d.targetLine ≤ lines.length) &&
      (Source.functionBody? lines d.targetLine d.targetFunction).any fun body =>
        Text.squeeze body.toList == Text.squeeze d.codeSnapshot.toList

/-- Whether an entry passes a stage. -/
def passes (enforce : Bool) (e : Entry) : Stage → Bool
  | .file => (read e.file).isOk
  | .line => lineKept read e
  | .consumer => !enforce || consumerFound read e
  | .provider => e.dependencies.all (providerLists read e.id)
  | .body => e.dependencies.all (bodyKept read)

/-- The first stage that an entry does not pass. -/
def firstFailing (enforce : Bool) (e : Entry) : Option Stage :=
  Stage.all.find? (!passes read enforce e ·)

/-! ## What a failed stage reports -/

/-- What is wrong with an approved line. -/
def lineReason (e : Entry) : DriftReason :=
  match read e.file with
  | .error _ => .codeNotFound
  | .ok lines => if 1 ≤ e.line ∧ e.line ≤ lines.length then .codeChanged else .codeNotFound

/-- What is wrong with the marker of a function. -/
def providerReason (d : Dependency) : DriftReason :=
  match read d.targetFile with
  | .error _ => .dependencyFileError
  | .ok lines =>
    match Marker.provider lines d.targetLine with
    | .error _ => .missingProvider
    | .ok p => if p.found then .mismatchedProvider else .missingProvider

/-- What is wrong with the text of a function. -/
def bodyReason (d : Dependency) : DriftReason :=
  match read d.targetFile with
  | .error _ => .dependencyNotFound
  | .ok lines =>
    if 1 ≤ d.targetLine ∧ d.targetLine ≤ lines.length then .dependencyChanged
    else .dependencyNotFound

/-- One failed check: what is wrong, and where. -/
structure Failure where
  reason : DriftReason
  file : String
  line : Int
  deriving DecidableEq, Repr

/-- The failed checks of a stage that is not passed.  A stage about functions has one for each
function that fails it, in the order in which the entry names them. -/
def failures (e : Entry) : Stage → List Failure
  | .file => [⟨.fileError, e.file, e.line⟩]
  | .line => [⟨lineReason read e, e.file, e.line⟩]
  | .consumer => [⟨.missingConsumer, e.file, e.line⟩]
  | .provider =>
    (e.dependencies.filter (!providerLists read e.id ·)).map fun d =>
      ⟨providerReason read d, d.targetFile, d.targetLine⟩
  | .body =>
    (e.dependencies.filter (!bodyKept read ·)).map fun d =>
      ⟨bodyReason read d, d.targetFile, d.targetLine⟩

/-- Whether an issue is that of a failed check. -/
def Failure.IsOf (f : Failure) (i : ValidationIssue) : Prop :=
  i.reason = f.reason.text ∧ i.file = f.file ∧ i.line = f.line

/-- What a verdict says, given the first stage that is not passed. -/
def Reports (e : Entry) (r : ValidationResult) : Option Stage → Prop
  | none => r.state = .valid ∧ r.reason = "" ∧ r.issues = []
  | some s =>
    r.state = s.state ∧ (failures read e s).head?.map (·.reason.text) = some r.reason ∧
      List.Forall₂ Failure.IsOf (failures read e s) r.issues

/-! ## Checks that come to no verdict -/

/-- Whether the check of an entry comes to no verdict: a value does not fit its field and the check
needs it; or the entry's file has a name that no file can have; or the file and the line are in
order, but the enforced marker above the line holds a number that is too long; or all of these are
in order, but the file of a function has such a name. -/
def Stops (enforce : Bool) (e : Entry) : Prop :=
  (unfitFault? e (read e.file)).isSome = true ∨
  read e.file = .error .nulInName ∨
  (lineKept read e = true ∧ enforce = true ∧
    ∃ lines, read e.file = .ok lines ∧ Marker.consumer lines e.line = .error .longNumeral) ∨
  (lineKept read e = true ∧ (enforce = true → consumerFound read e = true) ∧
    ∃ d ∈ e.dependencies, read d.targetFile = .error .nulInName)

/-- The functions on which an entry relies are declared at most one line past the end of their
files. -/
def DeclaredWithin (e : Entry) : Prop :=
  ∀ d ∈ e.dependencies, ∀ lines, read d.targetFile = .ok lines → d.targetLine ≤ lines.length + 1

end

variable {read : String → Except Cause (List Line)} {e : Entry} {lines : List Line}

/-! ## The approved line -/

theorem codeAt?_of_within {n : Int} (h : 1 ≤ n ∧ n ≤ lines.length) :
    ∃ raw, lines[(n - 1).toNat]? = some raw ∧
      Source.codeAt? lines n = some (String.ofList (Text.trim raw)) := by
  have hlt : (n - 1).toNat < lines.length := by omega
  have hge : ¬ n < 1 := by omega
  refine ⟨lines[(n - 1).toNat], List.getElem?_eq_getElem hlt, ?_⟩
  rw [Source.codeAt?, if_neg hge, List.getElem?_eq_getElem hlt]
  rfl

theorem codeAt?_of_not_within {n : Int} (h : ¬ (1 ≤ n ∧ n ≤ lines.length)) :
    Source.codeAt? lines n = none := by
  by_cases hlt : n < 1
  · rw [Source.codeAt?, if_pos hlt]
  · have hge : lines.length ≤ (n - 1).toNat := by omega
    rw [Source.codeAt?, if_neg hlt, List.getElem?_eq_none hge]
    rfl

theorem lineIssue?_of_lineKept (hread : read e.file = .ok lines) (h : lineKept read e = true) :
    lineIssue? e lines = none := by
  simp only [lineKept, hread, Bool.and_eq_true, decide_eq_true_eq, beq_iff_eq] at h
  obtain ⟨hwithin, htext⟩ := h
  obtain ⟨raw, hraw, hcode⟩ := codeAt?_of_within hwithin
  rw [hraw, Option.map_some, Option.some_inj] at htext
  simp only [lineIssue?, hcode, Text.trimString, htext, if_true]

theorem lineIssue?_of_not_lineKept (hread : read e.file = .ok lines)
    (h : lineKept read e = false) :
    ∃ i, lineIssue? e lines = some i ∧
      (⟨lineReason read e, e.file, e.line⟩ : Failure).IsOf i := by
  by_cases hwithin : 1 ≤ e.line ∧ e.line ≤ lines.length
  · obtain ⟨raw, hraw, hcode⟩ := codeAt?_of_within hwithin
    have hne : String.ofList (Text.trim raw) ≠ Text.trimString e.approvedCodeSnapshot := by
      intro heq
      have htext : Text.trim raw = Text.trim e.approvedCodeSnapshot.toList :=
        String.ofList_injective heq
      simp only [lineKept, hread, hraw, Option.map_some, htext, beq_self_eq_true, Bool.and_true,
        decide_eq_false_iff_not] at h
      exact h hwithin
    simp [lineIssue?, hcode, hne, Failure.IsOf, lineReason, hread, hwithin, issue]
  · have hcode := codeAt?_of_not_within hwithin
    simp only [lineIssue?, hcode, lineReason, hread, if_neg hwithin]
    exact ⟨_, rfl, rfl, rfl, rfl⟩

/-! ## The marker above the line -/

theorem blockAbove_of_le {n : Int} (h : n ≤ lines.length + 1) :
    ∃ b, Marker.blockAbove lines n = .ok b := by
  by_cases hle : n ≤ 1
  · exact ⟨_, by rw [Marker.blockAbove, if_pos hle]⟩
  · have hlt : ¬ lines.length < (n - 1).toNat := by omega
    exact ⟨_, by rw [Marker.blockAbove, if_neg hle, if_neg hlt]⟩

theorem readConsumers_eq_error {c : ConsumerMarker} {ts : List (List Char)} {f : Fault}
    (h : Marker.readConsumers c ts = .error f) : f = .longNumeral := by
  induction ts generalizing c with
  | nil => simp [Marker.readConsumers] at h
  | cons t rest ih =>
    rw [Marker.readConsumers] at h
    cases hc : Marker.readConsumer c t with
    | ok c' =>
      rw [hc] at h
      exact ih h
    | error f' =>
      rw [hc] at h
      have hf : f' = f := by simpa using h
      subst hf
      simp only [Marker.readConsumer, Marker.dependencyOf] at hc
      grind [Except.map]

theorem consumer_eq_error (hread : read e.file = .ok lines) (h : lineKept read e = true)
    {f : Fault} (hmarker : Marker.consumer lines e.line = .error f) : f = .longNumeral := by
  simp only [lineKept, hread, Bool.and_eq_true, decide_eq_true_eq] at h
  have hwithin : e.line ≤ lines.length + 1 := by omega
  obtain ⟨b, hb⟩ := blockAbove_of_le hwithin
  rw [Marker.consumer, hb] at hmarker
  exact readConsumers_eq_error hmarker

/-! ## The markers of functions -/

variable {id : String} {d : Dependency}

theorem isRefusal_of_ne {c : Cause} (h : c ≠ .nulInName) : c.isRefusal = true := by
  simpa [Cause.isRefusal] using h

theorem providerIssue?_of_providerLists (h : providerLists read id d = true) :
    providerIssue? id d (read d.targetFile) = .ok none := by
  unfold providerLists at h
  cases hread : read d.targetFile with
  | error c => simp [hread] at h
  | ok lines =>
    simp only [hread] at h
    cases hp : Marker.provider lines d.targetLine with
    | error f => simp [hp] at h
    | ok p =>
      simp only [hp, Bool.and_eq_true] at h
      simp only [providerIssue?, hp, h.1, h.2, Bool.not_true, Bool.false_eq_true, if_false, if_true]

theorem providerIssue?_of_not_providerLists
    (hname : read d.targetFile ≠ .error .nulInName)
    (hline : ∀ lines, read d.targetFile = .ok lines → d.targetLine ≤ lines.length + 1)
    (h : providerLists read id d = false) :
    ∃ i, providerIssue? id d (read d.targetFile) = .ok (some i) ∧
      (⟨providerReason read d, d.targetFile, d.targetLine⟩ : Failure).IsOf i := by
  unfold providerLists at h
  unfold providerReason
  cases hread : read d.targetFile with
  | error c =>
    have hc : c.isRefusal = true := isRefusal_of_ne fun hc => hname (by rw [hread, hc])
    simp only [providerIssue?, hc, if_true]
    exact ⟨_, rfl, rfl, rfl, rfl⟩
  | ok lines =>
    obtain ⟨b, hb⟩ := blockAbove_of_le (hline lines hread)
    have hp : Marker.provider lines d.targetLine = .ok (Marker.providerOf b) := by
      rw [Marker.provider, hb]
      rfl
    simp only [hread, hp] at h
    simp only [providerIssue?, hp]
    by_cases hfound : (Marker.providerOf b).found = true
    · simp only [hfound, Bool.true_and] at h
      simp only [hfound, h, Bool.not_true, Bool.false_eq_true, if_false, if_true]
      exact ⟨_, rfl, rfl, rfl, rfl⟩
    · simp only [hfound, Bool.not_false, if_true, Bool.false_eq_true, if_false]
      exact ⟨_, rfl, rfl, rfl, rfl⟩

/-- The functions that fail the marker stage are those with an issue, one issue each. -/
theorem providerIssuesOf_eq {ds : List Dependency}
    (hname : ∀ d ∈ ds, read d.targetFile ≠ .error .nulInName)
    (hline : ∀ d ∈ ds, ∀ lines, read d.targetFile = .ok lines → d.targetLine ≤ lines.length + 1) :
    ∃ issues, providerIssuesOf read id ds = .ok issues ∧
      List.Forall₂ Failure.IsOf
        ((ds.filter (!providerLists read id ·)).map fun d =>
          ⟨providerReason read d, d.targetFile, d.targetLine⟩) issues := by
  induction ds with
  | nil => exact ⟨[], rfl, .nil⟩
  | cons d rest ih =>
    obtain ⟨issues, hrest, hall⟩ := ih (fun d' hd' => hname d' (List.mem_cons_of_mem d hd'))
      (fun d' hd' => hline d' (List.mem_cons_of_mem d hd'))
    by_cases h : providerLists read id d = true
    · refine ⟨issues, ?_, ?_⟩
      · simp only [providerIssuesOf, providerIssue?_of_providerLists h, hrest]
        rfl
      · simpa only [List.filter_cons, h, Bool.not_true, Bool.false_eq_true, if_false] using hall
    · have h' : providerLists read id d = false := by simpa using h
      obtain ⟨i, hi, his⟩ := providerIssue?_of_not_providerLists (hname d List.mem_cons_self)
        (hline d List.mem_cons_self) h'
      refine ⟨i :: issues, ?_, ?_⟩
      · simp only [providerIssuesOf, hi, hrest]
        rfl
      · simpa only [List.filter_cons, h', Bool.not_false, if_true, List.map_cons] using
          List.Forall₂.cons his hall

theorem providerIssuesOf_eq_error {ds : List Dependency}
    (hline : ∀ d ∈ ds, ∀ lines, read d.targetFile = .ok lines → d.targetLine ≤ lines.length + 1)
    (h : ∃ d ∈ ds, read d.targetFile = .error .nulInName) :
    providerIssuesOf read id ds = .error .nulInName := by
  induction ds with
  | nil => simp at h
  | cons d rest ih =>
    by_cases hd : read d.targetFile = .error .nulInName
    · rw [providerIssuesOf, hd]
      rfl
    · have hrest : ∃ d ∈ rest, read d.targetFile = .error .nulInName := by
        obtain ⟨d', hmem, hd'⟩ := h
        rcases List.mem_cons.mp hmem with rfl | hmem
        · exact absurd hd' hd
        · exact ⟨d', hmem, hd'⟩
      have hok : ∃ i, providerIssue? id d (read d.targetFile) = .ok i := by
        by_cases hp : providerLists read id d = true
        · exact ⟨none, providerIssue?_of_providerLists hp⟩
        · obtain ⟨i, hi, -⟩ := providerIssue?_of_not_providerLists hd
            (hline d List.mem_cons_self) (by simpa using hp)
          exact ⟨some i, hi⟩
      obtain ⟨i, hi⟩ := hok
      rw [providerIssuesOf, hi, ih (fun d' hd' => hline d' (List.mem_cons_of_mem d hd')) hrest]

/-! ## The texts of functions -/

theorem functionBody?_isSome {n : Int} {function : String} :
    (Source.functionBody? lines n function).isSome = true ↔ 1 ≤ n ∧ n ≤ lines.length := by
  unfold Source.functionBody?
  split
  · simp only [Option.isSome_none, Bool.false_eq_true, false_iff]
    omega
  · simp only [Option.isSome_some, true_iff]
    omega

theorem bodyIssue?_of_bodyKept (h : bodyKept read d = true) :
    bodyIssue? d (read d.targetFile) = none := by
  unfold bodyKept at h
  cases hread : read d.targetFile with
  | error c => simp [hread] at h
  | ok lines =>
    simp only [hread, Bool.and_eq_true] at h
    cases hbody : Source.functionBody? lines d.targetLine d.targetFunction with
    | none => simp [hbody] at h
    | some body =>
      have htext : Text.squeeze body.toList = Text.squeeze d.codeSnapshot.toList := by
        simpa [hbody] using h.2
      simp only [bodyIssue?, hbody, htext, if_true]

/-- A function whose file can be read fails the last stage for its place or for its text, never for
its file. -/
theorem bodyIssue?_of_not_bodyKept (hread : read d.targetFile = .ok lines)
    (h : bodyKept read d = false) :
    ∃ i, bodyIssue? d (read d.targetFile) = some i ∧
      (⟨bodyReason read d, d.targetFile, d.targetLine⟩ : Failure).IsOf i := by
  have hsome : (Source.functionBody? lines d.targetLine d.targetFunction).isSome = true ↔
      1 ≤ d.targetLine ∧ d.targetLine ≤ lines.length := functionBody?_isSome
  simp only [bodyKept, hread] at h
  simp only [bodyIssue?, bodyReason, hread]
  cases hbody : Source.functionBody? lines d.targetLine d.targetFunction with
  | none =>
    have hout : ¬ (1 ≤ d.targetLine ∧ d.targetLine ≤ lines.length) := by
      rw [← hsome, hbody]
      decide
    simp only [if_neg hout]
    exact ⟨_, rfl, rfl, rfl, rfl⟩
  | some body =>
    have hin : 1 ≤ d.targetLine ∧ d.targetLine ≤ lines.length := by
      rw [← hsome, hbody]
      rfl
    have htext : Text.squeeze body.toList ≠ Text.squeeze d.codeSnapshot.toList := by
      simpa [hbody, hin] using h
    simp only [if_pos hin, if_neg htext]
    exact ⟨_, rfl, rfl, rfl, rfl⟩

/-- The functions that fail the last stage are those with an issue, one issue each. -/
theorem bodyIssuesOf_eq {ds : List Dependency}
    (hread : ∀ d ∈ ds, ∃ lines, read d.targetFile = .ok lines) :
    List.Forall₂ Failure.IsOf
      ((ds.filter (!bodyKept read ·)).map fun d => ⟨bodyReason read d, d.targetFile, d.targetLine⟩)
      (bodyIssuesOf read ds) := by
  induction ds with
  | nil => exact .nil
  | cons d rest ih =>
    have hall := ih fun d' hd' => hread d' (List.mem_cons_of_mem d hd')
    by_cases h : bodyKept read d = true
    · simpa only [bodyIssuesOf, List.filterMap_cons, bodyIssue?_of_bodyKept h, List.filter_cons, h,
        Bool.not_true, Bool.false_eq_true, if_false] using hall
    · have h' : bodyKept read d = false := by simpa using h
      obtain ⟨lines, hlines⟩ := hread d List.mem_cons_self
      obtain ⟨i, hi, his⟩ := bodyIssue?_of_not_bodyKept hlines h'
      simpa only [bodyIssuesOf, List.filterMap_cons, hi, List.filter_cons, h', Bool.not_false,
        if_true, List.map_cons] using List.Forall₂.cons his hall

/-! ## The verdict -/

theorem reports_failed {r : ValidationResult} (hr : r.issues = []) {s : Stage}
    {issues : List ValidationIssue} (hne : issues ≠ [])
    (hall : List.Forall₂ Failure.IsOf (failures read e s) issues) :
    Reports read e (failed r s.state issues) (some s) := by
  obtain ⟨i, is, rfl⟩ := List.exists_cons_of_ne_nil hne
  refine ⟨rfl, ?_, ?_⟩
  · cases hf : failures read e s with
    | nil => rw [hf] at hall; cases hall
    | cons f fs =>
      rw [hf] at hall
      cases hall with
      | cons hfi _ => simp [failed, hfi.1]
  · simpa [failed, hr] using hall

theorem bodyReason_text_ne (read : String → Except Cause (List Line)) (d : Dependency) :
    (bodyReason read d).text ≠ DriftReason.dependencyFileError.text := by
  unfold bodyReason
  split
  · decide
  · split <;> decide

/-- No check of the last stage fails for a file that cannot be read, so that stage never makes an
entry broken. -/
theorem bodyState_eq {ds : List Dependency}
    (hread : ∀ d ∈ ds, ∃ lines, read d.targetFile = .ok lines) :
    bodyState (bodyIssuesOf read ds) = .drifted := by
  have hnone : ∀ i ∈ bodyIssuesOf read ds, i.reason ≠ DriftReason.dependencyFileError.text := by
    intro i hi
    obtain ⟨d, hd, hissue⟩ := List.mem_filterMap.mp hi
    obtain ⟨lines, hlines⟩ := hread d hd
    by_cases h : bodyKept read d = true
    · rw [bodyIssue?_of_bodyKept h] at hissue
      cases hissue
    · obtain ⟨i', hi', his⟩ := bodyIssue?_of_not_bodyKept hlines (by simpa using h)
      rw [hi', Option.some_inj] at hissue
      rw [← hissue, his.1]
      exact bodyReason_text_ne read d
  simpa [bodyState] using hnone

theorem exists_lines_of_providerLists (h : providerLists read id d = true) :
    ∃ lines, read d.targetFile = .ok lines := by
  unfold providerLists at h
  cases hread : read d.targetFile with
  | error c => simp [hread] at h
  | ok lines => exact ⟨lines, rfl⟩

/-- A stage about functions has no issue exactly if every function passes it. -/
theorem issues_eq_nil_iff {p : Dependency → Bool} {g : Dependency → Failure}
    {ds : List Dependency} {issues : List ValidationIssue}
    (hall : List.Forall₂ Failure.IsOf ((ds.filter (!p ·)).map g) issues) :
    issues = [] ↔ ds.all p = true := by
  have hlength := hall.length_eq
  rw [List.length_map] at hlength
  rw [← List.length_eq_zero_iff, ← hlength, List.length_eq_zero_iff, List.filter_eq_nil_iff,
    List.all_eq_true]
  simp

theorem judgeDependencies_of_ne_nil {r : ValidationResult} {issues : List ValidationIssue}
    (hissues : providerIssuesOf read e.id e.dependencies = .ok issues) (hne : issues ≠ []) :
    judgeDependencies read e r = .ok (failed r .broken issues) := by
  obtain ⟨i, is, rfl⟩ := List.exists_cons_of_ne_nil hne
  rw [judgeDependencies, hissues]

theorem judgeDependencies_of_nil {r : ValidationResult}
    (hissues : providerIssuesOf read e.id e.dependencies = .ok []) :
    judgeDependencies read e r =
      if bodyIssuesOf read e.dependencies = [] then .ok { r with state := .valid }
      else .ok (failed r (bodyState (bodyIssuesOf read e.dependencies))
        (bodyIssuesOf read e.dependencies)) := by
  rw [judgeDependencies, hissues]
  cases bodyIssuesOf read e.dependencies <;> simp

/-- The last two stages decide, once the first three are passed. -/
theorem judgeDependencies_reports {enforce : Bool} {r : ValidationResult} (hr : r.issues = [])
    (hreason : r.reason = "")
    (hfile : passes read enforce e .file = true) (hline : passes read enforce e .line = true)
    (hconsumer : passes read enforce e .consumer = true)
    (hname : ∀ d ∈ e.dependencies, read d.targetFile ≠ .error .nulInName)
    (hwithin : DeclaredWithin read e) :
    ∃ r', judgeDependencies read e r = .ok r' ∧
      (r'.entryId = r.entryId ∧ r'.file = r.file ∧ r'.line = r.line) ∧
      Reports read e r' (firstFailing read enforce e) := by
  obtain ⟨issues, hissues, hall⟩ : ∃ issues,
      providerIssuesOf read e.id e.dependencies = .ok issues ∧ _ :=
        providerIssuesOf_eq hname hwithin
  by_cases hprovider : passes read enforce e .provider = true
  · have hnil : issues = [] := (issues_eq_nil_iff hall).mpr hprovider
    have hread : ∀ d ∈ e.dependencies, ∃ lines, read d.targetFile = .ok lines := by
      intro d hd
      exact exists_lines_of_providerLists (List.all_eq_true.mp hprovider d hd)
    have hbodies := bodyIssuesOf_eq hread
    rw [judgeDependencies_of_nil (hnil ▸ hissues)]
    by_cases hbody : passes read enforce e .body = true
    · have hfirst : firstFailing read enforce e = none := by
        simp [firstFailing, Stage.all, hfile, hline, hconsumer, hprovider, hbody]
      rw [if_pos ((issues_eq_nil_iff hbodies).mpr hbody), hfirst]
      exact ⟨_, rfl, ⟨rfl, rfl, rfl⟩, rfl, hreason, hr⟩
    · have hfirst : firstFailing read enforce e = some .body := by
        simp [firstFailing, Stage.all, hfile, hline, hconsumer, hprovider, hbody]
      have hne : bodyIssuesOf read e.dependencies ≠ [] :=
        fun hnil => hbody ((issues_eq_nil_iff hbodies).mp hnil)
      rw [if_neg hne, bodyState_eq hread, hfirst]
      exact ⟨_, rfl, ⟨rfl, rfl, rfl⟩, reports_failed (s := .body) hr hne hbodies⟩
  · have hfirst : firstFailing read enforce e = some .provider := by
      simp [firstFailing, Stage.all, hfile, hline, hconsumer, hprovider]
    have hne : issues ≠ [] := fun hnil => hprovider ((issues_eq_nil_iff hall).mp hnil)
    rw [judgeDependencies_of_ne_nil hissues hne, hfirst]
    exact ⟨_, rfl, ⟨rfl, rfl, rfl⟩, reports_failed (s := .provider) hr hne hall⟩

/-! ## The verdict as a whole -/

/-- The stages after the second decide, once the file can be read and the line is kept. -/
theorem judgeLines_reports {enforce : Bool} (hread : read e.file = .ok lines)
    (hline : lineKept read e = true)
    (hnumeral : enforce = true → Marker.consumer lines e.line ≠ .error .longNumeral)
    (hname : (enforce = true → consumerFound read e = true) →
      ∀ d ∈ e.dependencies, read d.targetFile ≠ .error .nulInName)
    (hwithin : DeclaredWithin read e) :
    ∃ r, judgeLines read enforce e lines = .ok r ∧
      (r.entryId = e.id ∧ r.file = e.file ∧ r.line = e.line) ∧
      Reports read e r (firstFailing read enforce e) := by
  have hfile : passes read enforce e .file = true := by
    simp [passes, hread, Except.isOk, Except.toBool]
  rw [judgeLines, lineIssue?_of_lineKept hread hline]
  cases enforce with
  | false =>
    exact judgeDependencies_reports rfl rfl hfile hline rfl
      (hname fun h => absurd h Bool.false_ne_true) hwithin
  | true =>
    cases hm : Marker.consumer lines e.line with
    | error f =>
      rw [consumer_eq_error hread hline hm] at hm
      exact absurd hm (hnumeral rfl)
    | ok m =>
      have hfound : consumerFound read e = m.found := by simp [consumerFound, hread, hm]
      by_cases hf : m.found = true
      · simp only [hf, Bool.not_true, Bool.false_eq_true, if_false, if_true]
        exact judgeDependencies_reports rfl rfl hfile hline (hfound.trans hf)
          (hname fun _ => hfound.trans hf) hwithin
      · have hfirst : firstFailing read true e = some .consumer := by
          simp [firstFailing, Stage.all, passes, hread, Except.isOk,
            Except.toBool, hline, hfound, hf]
        simp only [hf, Bool.not_false, if_true, hfirst]
        exact ⟨_, rfl, ⟨rfl, rfl, rfl⟩, reports_failed (s := .consumer) rfl
          (List.cons_ne_nil _ _) (.cons ⟨rfl, rfl, rfl⟩ .nil)⟩

/-- An entry on which the check does not stop gets the verdict that its first failing stage calls
for. -/
theorem judge_of_not_stops {enforce : Bool} {given : Entry} (he : numbered given = e)
    (hwithin : DeclaredWithin read e) (h : ¬ Stops read enforce e) :
    ∃ r, judge read enforce given = .ok r ∧
      (r.entryId = e.id ∧ r.file = e.file ∧ r.line = e.line) ∧
      Reports read e r (firstFailing read enforce e) := by
  simp only [Stops, not_or, not_and, not_exists] at h
  obtain ⟨hsome, hnul, hnumeral, hnames⟩ := h
  have hfit : unfitFault? e (read e.file) = none := by simpa using hsome
  cases hread : read e.file with
  | error c =>
    have hc : c.isRefusal = true := isRefusal_of_ne fun hc => hnul (by rw [hread, hc])
    have hfirst : firstFailing read enforce e = some .file := by
      simp [firstFailing, Stage.all, passes, hread, Except.isOk, Except.toBool]
    rw [judge_of_error he hfit hread, if_pos hc, hfirst]
    exact ⟨_, rfl, ⟨rfl, rfl, rfl⟩, reports_failed (s := .file) rfl (List.cons_ne_nil _ _)
      (.cons ⟨rfl, rfl, rfl⟩ .nil)⟩
  | ok lines =>
    rw [judge_of_ok he hfit hread]
    by_cases hline : lineKept read e = true
    · exact judgeLines_reports hread hline (fun ht => hnumeral hline ht lines hread)
        (hnames hline) hwithin
    · obtain ⟨i, hi, his⟩ := lineIssue?_of_not_lineKept hread (by simpa using hline)
      have hfirst : firstFailing read enforce e = some .line := by
        simp [firstFailing, Stage.all, passes, hread, Except.isOk, Except.toBool, hline]
      rw [judgeLines, hi, hfirst]
      exact ⟨_, rfl, ⟨rfl, rfl, rfl⟩, reports_failed (s := .line) rfl (List.cons_ne_nil _ _)
        (.cons his .nil)⟩

theorem judge_of_stops {enforce : Bool} {given : Entry} (he : numbered given = e)
    (hwithin : DeclaredWithin read e) (h : Stops read enforce e) :
    ∃ f, judge read enforce given = .error f := by
  cases hfit : unfitFault? e (read e.file) with
  | some f => exact ⟨f, judge_of_fault he hfit⟩
  | none =>
    rcases h with hsome | hnul | ⟨hline, henforce, lines, hread, hm⟩ | ⟨hline, hfound, hnames⟩
    · rw [hfit] at hsome
      cases hsome
    · exact ⟨.nulInName, by rw [judge_of_error he hfit hnul]; rfl⟩
    · refine ⟨.longNumeral, ?_⟩
      rw [judge_of_ok he hfit hread, judgeLines, lineIssue?_of_lineKept hread hline]
      simp only [henforce, if_true, hm]
    · have hdeps : ∀ r, judgeDependencies read e r = .error .nulInName := by
        intro r
        rw [judgeDependencies, providerIssuesOf_eq_error hwithin hnames]
      cases hread : read e.file with
      | error c => simp [lineKept, hread] at hline
      | ok lines =>
        refine ⟨.nulInName, ?_⟩
        rw [judge_of_ok he hfit hread, judgeLines, lineIssue?_of_lineKept hread hline]
        by_cases henforce : enforce = true
        · have hfound' := hfound henforce
          simp only [consumerFound, hread] at hfound'
          cases hm : Marker.consumer lines e.line with
          | error f => simp [hm] at hfound'
          | ok m =>
            rw [hm] at hfound'
            simp only [henforce, if_true, hfound', Bool.not_true, Bool.false_eq_true, if_false,
              hdeps]
        · simp only [henforce, Bool.false_eq_true, if_false, hdeps]

theorem firstFailing_eq_none_iff {enforce : Bool} :
    firstFailing read enforce e = none ↔ ∀ s, passes read enforce e s = true := by
  rw [firstFailing, List.find?_eq_none]
  constructor
  · intro h s
    have hs : s ∈ Stage.all := by cases s <;> decide
    simpa using h s hs
  · intro h s _
    simp [h s]

theorem state_eq_valid_iff {enforce : Bool} {r : ValidationResult}
    (h : Reports read e r (firstFailing read enforce e)) :
    r.state = .valid ↔ ∀ s, passes read enforce e s = true := by
  rw [← firstFailing_eq_none_iff]
  cases hfirst : firstFailing read enforce e with
  | none =>
    rw [hfirst] at h
    exact ⟨fun _ => rfl, fun _ => h.1⟩
  | some s =>
    rw [hfirst] at h
    have hne : r.state ≠ .valid := by
      rw [h.1]
      cases s <;> decide
    exact ⟨fun hvalid => absurd hvalid hne, nofun⟩

/-- The verdict on an entry, exactly.  A check that does not stop gives the verdict of the first
stage that is not passed: broken for the file and the two kinds of markers, drifted for the line and
the texts of functions, with the failed checks of that stage and no others.  The line is the number
that the entry holds in its place. -/
theorem validate_decided_by_first_failing_stage (v : Validator) (t : Tree) (e : Entry)
    (hwithin : DeclaredWithin (v.known t) e) :
    (Stops (v.known t) v.enforce (numbered e) ∧ ∃ f, (v.validate t e).1 = .error f) ∨
    (¬ Stops (v.known t) v.enforce (numbered e) ∧ ∃ r, (v.validate t e).1 = .ok r ∧
      (r.entryId = e.id ∧ r.file = e.file ∧ r.line = (numbered e).line) ∧
      (r.state = .valid ↔ ∀ s, passes (v.known t) v.enforce (numbered e) s = true) ∧
      Reports (v.known t) (numbered e) r (firstFailing (v.known t) v.enforce (numbered e))) := by
  have hwithin' : DeclaredWithin (v.known t) (numbered e) := by
    rwa [DeclaredWithin, numbered_dependencies]
  rw [validate_fst]
  by_cases h : Stops (v.known t) v.enforce (numbered e)
  · exact .inl ⟨h, judge_of_stops rfl hwithin' h⟩
  · obtain ⟨r, hr, hplace, hreports⟩ := judge_of_not_stops rfl hwithin' h
    rw [numbered_id, numbered_file] at hplace
    exact .inr ⟨h, r, hr, hplace, state_eq_valid_iff hreports, hreports⟩

/-- A validator that has read two files, and enforces markers. -/
def sampleValidator : Validator :=
  { root := { anchor := .root, parts := ["p"] }, enforce := true,
    cache :=
      [("a.js", .ok ["// @validation-ignore null-access".toList, "  user.name;".toList]),
       ("b.js", .ok ["// @validation-dependency n-1".toList, "function load() { }".toList])] }

/-- An entry that relies on a marked function, on one declared past the end of its file and on one
whose file is not there. -/
def sampleEntry : Entry :=
  { id := "n-1", file := "a.js", line := 2, approvedCodeSnapshot := "user.name;",
    approvedDate := "2025-03-04",
    dependencies :=
      [{ targetFile := "b.js", targetFunction := "load", targetLine := 2,
         codeSnapshot := "function load()\n{ }" },
       { targetFile := "b.js", targetFunction := "load", targetLine := 3 },
       { targetFile := "c.js", targetFunction := "save", targetLine := 7 }] }

theorem validate_decided_by_first_failing_stage_sample :
    DeclaredWithin (sampleValidator.known {}) sampleEntry ∧
    firstFailing (sampleValidator.known {}) true sampleEntry = some .provider ∧
    ∃ r, (sampleValidator.validate {} sampleEntry).1 = .ok r ∧
      Reports (sampleValidator.known {}) sampleEntry r (some .provider) := by
  have hwithin : DeclaredWithin (sampleValidator.known {}) sampleEntry := by
    intro d hd lines hread
    simp only [sampleEntry, List.mem_cons, List.not_mem_nil, or_false] at hd
    rcases hd with rfl | rfl | rfl
    · cases hread
      decide
    · cases hread
      decide
    · cases hread
  have hfirst : firstFailing (sampleValidator.known {}) true sampleEntry = some .provider := by
    decide +kernel
  refine ⟨hwithin, hfirst, ?_⟩
  rcases validate_decided_by_first_failing_stage sampleValidator {} sampleEntry hwithin with
    ⟨-, f, hf⟩ | ⟨-, r, hr, -, -, hreports⟩
  · have hok : (sampleValidator.validate {} sampleEntry).1.isOk = true := by decide +kernel
    rw [hf] at hok
    cases hok
  · have he : numbered sampleEntry = sampleEntry := rfl
    rw [he] at hreports
    exact ⟨r, hr, hfirst ▸ hreports⟩

/-- A file name with a NUL character in it is no file that can be read, yet the check does not call
the entry broken: it stops. -/
theorem validate_nul_in_name :
    ∃ (v : Validator) (e : Entry), e.unfit = [] ∧ DeclaredWithin (v.known {}) e ∧
      firstFailing (v.known {}) v.enforce e = some .file ∧
      (v.validate {} e).1 = .error .nulInName := by
  refine ⟨{ root := { anchor := .root, parts := ["p"] } },
    { id := "n-1", file := "a\x00.js", line := 1, approvedCodeSnapshot := "user.name;",
      approvedDate := "2025-03-04" }, rfl, ?_, by decide +kernel, rfl⟩
  intro d hd
  cases hd

end NullAccess.Validator
