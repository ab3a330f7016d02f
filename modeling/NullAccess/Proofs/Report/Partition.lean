import Mathlib.Data.Finset.Card
import Mathlib.Data.List.Dedup
import NullAccess.Proofs.Report.Merge

/-!
# Reports partition the findings

With pairwise distinct ids an entry speaks for itself, so the buckets of a report can be told from
the findings, the ledger and the verdicts, without the order in which the verdicts are given:
`assemble_partitions`.
-/

namespace NullAccess

/-! ## Names without repetition -/

theorem eraseDups_spec (names : List String) :
    names.eraseDups.Nodup ∧ ∀ name, name ∈ names.eraseDups ↔ name ∈ names := by
  induction h : names.length using Nat.strong_induction_on generalizing names with
  | _ n ih =>
    cases names with
    | nil => simp
    | cons a rest =>
      have hlength : (rest.filter fun b => !b == a).length < n := by
        have := List.length_filter_le (fun b => !b == a) rest
        simp only [List.length_cons] at h
        omega
      obtain ⟨hnodup, hmem⟩ := ih _ hlength _ rfl
      rw [List.eraseDups_cons]
      constructor
      · rw [List.nodup_cons, hmem]
        simpa using hnodup
      · intro name
        rw [List.mem_cons, hmem, List.mem_cons, List.mem_filter]
        by_cases hname : name = a <;> simp [hname]

theorem length_eraseDups (names : List String) : names.eraseDups.length = names.toFinset.card := by
  obtain ⟨hnodup, hmem⟩ := eraseDups_spec names
  rw [← List.toFinset_card_of_nodup hnodup]
  congr 1
  ext name
  simp [hmem]

/-! ## Findings -/

namespace Finding

theorem levelFor_eq_error_iff (f : Finding) (d : DefaultSeverity) :
    f.levelFor d = "error" ↔ d = .error ∧ f.severity = .high := by
  unfold levelFor
  cases f.severity <;> cases d <;> decide

end Finding

namespace FileResult

theorem level_of_mem_found {results : List FileResult} {d : DefaultSeverity} {f : Finding}
    (h : f ∈ found d results) : f.level = f.levelFor d := by
  obtain ⟨r, -, hr⟩ := List.mem_flatMap.mp h
  obtain ⟨g, -, rfl⟩ := List.mem_map.mp hr
  rfl

end FileResult

namespace Ledger

theorem covering?_eq_none_iff {l : Ledger} {f : Finding} :
    l.covering? f = none ↔
      ∀ e ∈ l.entries, ¬ (e.isAt f.file f.line = true ∧ e.isOf f.category = true) := by
  simp [covering?, find?, List.find?_eq_none]

end Ledger

namespace Merge

variable (l : Ledger) (rule : Entry → ValidationResult) (fs : List Finding)

theorem map_finding_whitelistedOf :
    (whitelistedOf l rule fs).map (·.finding) =
      fs.filter fun f => (l.covering? f).any fun e => (rule e).isValid := by
  induction fs with
  | nil => rfl
  | cons f rest ih =>
    simp only [whitelistedOf, List.filterMap_cons, List.filter_cons] at ih ⊢
    cases l.covering? f with
    | none => simpa using ih
    | some e => by_cases h : (rule e).isValid = true <;> simpa [h] using ih

theorem filterMap_finding_driftOf :
    (driftOf l rule fs).filterMap (·.finding) =
      fs.filter fun f => (l.covering? f).any fun e => !(rule e).isValid := by
  induction fs with
  | nil => rfl
  | cons f rest ih =>
    simp only [driftOf, List.filterMap_cons, List.filter_cons] at ih ⊢
    cases l.covering? f with
    | none => simpa using ih
    | some e => by_cases h : (rule e).isValid = true <;> simpa [h, DriftItem.of] using ih

theorem finding_isSome_of_mem_driftOf {i : DriftItem} (h : i ∈ driftOf l rule fs) :
    i.finding.isSome = true := by
  obtain ⟨f, -, hf⟩ := List.mem_filterMap.mp h
  obtain ⟨e, -, he⟩ := Option.bind_eq_some_iff.mp hf
  split at he
  · cases he
  · cases he
    rfl

theorem finding_eq_none_of_mem_staleOf {es : List Entry} {i : DriftItem}
    (h : i ∈ staleOf rule es) : i.finding = none := by
  obtain ⟨e, -, rfl⟩ := List.mem_map.mp h
  rfl

theorem filterMap_finding_staleOf (es : List Entry) :
    (staleOf rule es).filterMap (·.finding) = [] := by
  rw [List.filterMap_eq_nil_iff]
  intro i hi
  exact finding_eq_none_of_mem_staleOf rule hi

/-! ## Distinct ids -/

variable {l} {rule}

theorem countP_and_id {es : List Entry} (hids : (es.map (·.id)).Nodup) {e : Entry} (he : e ∈ es)
    (p : Entry → Bool) :
    es.countP (fun a => p a && a.id == e.id) = if p e then 1 else 0 := by
  have hcongr : es.countP (fun a => p a && a.id == e.id) =
      es.countP fun a => p e && a == e := by
    refine List.countP_congr fun a ha => ?_
    by_cases hid : a.id = e.id
    · rw [eq_of_id_eq hids ha he hid]
      simp
    · have hne : a ≠ e := fun h => hid (h ▸ rfl)
      simp [hid, hne]
  rw [hcongr]
  by_cases hp : p e = true
  · simp only [hp, Bool.true_and, if_true]
    exact List.count_eq_one_of_mem (List.Nodup.of_map _ hids) he
  · simp [hp]

theorem countP_staleOf {es : List Entry} (hids : (es.map (·.id)).Nodup) {e : Entry} (he : e ∈ es)
    (p : Entry → Bool) :
    (staleOf rule (es.filter p)).countP (fun i => i.finding.isNone && i.entryId == e.id) =
      if p e && !(rule e).isValid then 1 else 0 := by
  rw [staleOf, List.countP_map, List.countP_filter, List.countP_filter]
  have hcongr := countP_and_id hids he fun a => p a && !(rule a).isValid
  rw [← hcongr]
  refine List.countP_congr fun a _ => ?_
  simp only [Function.comp_apply, DriftItem.of, Option.isNone_none, Bool.true_and, Bool.and_eq_true]
  tauto

end Merge

namespace ScanReport

open Merge

variable {results : List FileResult} {l : Ledger} {t : Tree} {v : Validator} {d : DefaultSeverity}
  {target today time : String}

/-! ## Verdicts under distinct ids -/

theorem spokesman_asked (hids : (l.entries.map (·.id)).Nodup) {e : Entry} (he : e ∈ l.entries) :
    spokesman (asked results l d) e = e :=
  spokesman_eq_self fun _ ha hid => eq_of_id_eq hids (mem_entries_of_mem_asked ha) he hid

theorem reportable_of_verdicts (hids : (l.entries.map (·.id)).Nodup)
    (hverdicts : ∀ e ∈ l.entries, ∃ r, v.verdictOn t e = .ok r) :
    Reportable results l t v d := by
  constructor
  · intro e he _
    obtain ⟨r, hr⟩ := hverdicts e he
    exact isNamed_of_verdictOn hr
  · intro e he
    have hmem := mem_entries_of_mem_asked he
    rw [Judged, spokesman_asked hids hmem]
    exact hverdicts e hmem

theorem ruling_asked_isValid_iff (hids : (l.entries.map (·.id)).Nodup)
    (hverdicts : ∀ e ∈ l.entries, ∃ r, v.verdictOn t e = .ok r) (results : List FileResult)
    {e : Entry} (he : e ∈ l.entries) :
    (ruling v t (asked results l d) e).isValid = true ↔ v.Approves t e := by
  have hspoke : spokesman (asked results l d) e = e := spokesman_asked hids he
  obtain ⟨r, hr⟩ := hverdicts e he
  rw [ruling_isValid_iff ⟨r, hspoke.symm ▸ hr⟩, hspoke]

/-! ## The partition -/

/-- The buckets that findings go to. -/
inductive Bucket where
  | new
  | whitelisted
  | drift
  deriving DecidableEq, Repr

/-- The bucket of a finding, given the verdicts that count. -/
def bucketOf (l : Ledger) (rule : Entry → ValidationResult) (f : Finding) : Bucket :=
  match l.covering? f with
  | none => .new
  | some e => if (rule e).isValid then .whitelisted else .drift

/-- An entry of a scanned file to which no finding is matched and which is not valid. -/
structure IsStale (results : List FileResult) (l : Ledger) (t : Tree) (v : Validator)
    (d : DefaultSeverity) (e : Entry) : Prop where
  scanned : e.file ∈ results.map (·.file)
  unmatched : ∀ f ∈ FileResult.found d results, l.covering? f ≠ some e
  invalid : ¬ v.Approves t e

/-- How often an entry is in a report's drift without a finding. -/
def staleCount (r : ScanReport) (e : Entry) : Nat :=
  r.drift.countP fun i => i.finding.isNone && i.entryId == e.id

/-- What makes a report a partition of the findings, given the bucket of each finding. -/
structure Partitions (results : List FileResult) (l : Ledger) (t : Tree) (v : Validator)
    (d : DefaultSeverity) (bucket : Finding → Bucket) (r : ScanReport) : Prop where
  bucket_new : ∀ f, bucket f = .new ↔
    ∀ e ∈ l.entries, ¬ (e.isAt f.file f.line = true ∧ e.isOf f.category = true)
  bucket_whitelisted : ∀ f, bucket f = .whitelisted ↔
    ∃ e, l.covering? f = some e ∧ v.Approves t e
  new : r.new = ((FileResult.found d results).filter (bucket · = .new)).map Finding.withFix
  whitelisted : r.whitelisted.map (·.finding) =
    (FileResult.found d results).filter (bucket · = .whitelisted)
  drift : r.drift.filterMap (·.finding) =
    ((FileResult.found d results).filter (bucket · = .drift)).map Finding.withFix
  -- Drift without a finding is of an entry, and an entry is there once or never.
  stale : ∀ i ∈ r.drift, i.finding = none → ∃ e ∈ l.entries, i.entryId = e.id
  stale_once : ∀ e ∈ l.entries, IsStale results l t v d e → r.staleCount e = 1
  stale_never : ∀ e ∈ l.entries, ¬ IsStale results l t v d e → r.staleCount e = 0
  errors : r.errors = FileResult.unread results
  summary : r.summary =
    { filesScanned := (results.map (·.file)).toFinset.card, new := r.new.length,
      newErrors := (r.new.filter (·.level == "error")).length,
      whitelisted := r.whitelisted.length, drift := r.drift.length,
      fileErrors := r.errors.length }
  shouldFail : r.shouldFail = true ↔
    r.drift ≠ [] ∨ d = .error ∧ ∃ f ∈ r.new, f.severity = .high

section

variable {rule : Entry → ValidationResult} {f : Finding}

theorem bucketOf_eq_new_iff : bucketOf l rule f = .new ↔ (l.covering? f).isNone = true := by
  unfold bucketOf
  cases l.covering? f with
  | none => simp
  | some e => by_cases h : (rule e).isValid = true <;> simp [h]

theorem bucketOf_eq_whitelisted_iff :
    bucketOf l rule f = .whitelisted ↔
      ((l.covering? f).any fun e => (rule e).isValid) = true := by
  unfold bucketOf
  cases l.covering? f with
  | none => simp
  | some e => by_cases h : (rule e).isValid = true <;> simp [h]

theorem bucketOf_eq_drift_iff :
    bucketOf l rule f = .drift ↔
      ((l.covering? f).any fun e => !(rule e).isValid) = true := by
  unfold bucketOf
  cases l.covering? f with
  | none => simp
  | some e => by_cases h : (rule e).isValid = true <;> simp [h]

end

theorem level_of_mem_new {f : Finding} (h : f ∈ (merged results l t v d target today time).new) :
    f.level = f.levelFor d := by
  obtain ⟨g, hg, rfl⟩ := List.mem_map.mp h
  have hlevel : g.level = g.levelFor d :=
    FileResult.level_of_mem_found (List.mem_of_mem_filter hg)
  exact hlevel

theorem shouldFail_merged :
    (merged results l t v d target today time).shouldFail = true ↔
      (merged results l t v d target today time).drift ≠ [] ∨
        d = .error ∧ ∃ f ∈ (merged results l t v d target today time).new, f.severity = .high := by
  have hany : ((merged results l t v d target today time).new.any (·.level == "error")) = true ↔
      d = .error ∧ ∃ f ∈ (merged results l t v d target today time).new, f.severity = .high := by
    rw [List.any_eq_true]
    constructor
    · rintro ⟨f, hf, hlevel⟩
      rw [beq_iff_eq, level_of_mem_new hf, Finding.levelFor_eq_error_iff] at hlevel
      exact ⟨hlevel.1, f, hf, hlevel.2⟩
    · rintro ⟨hd, f, hf, hhigh⟩
      refine ⟨f, hf, ?_⟩
      rw [beq_iff_eq, level_of_mem_new hf, Finding.levelFor_eq_error_iff]
      exact ⟨hd, hhigh⟩
  rw [shouldFail, Bool.or_eq_true, hany]
  simp

theorem drift_findings :
    (merged results l t v d target today time).drift.filterMap (·.finding) =
      ((FileResult.found d results).filter
        (bucketOf l (ruling v t (asked results l d)) · = .drift)).map Finding.withFix := by
  have hfix : ∀ is : List DriftItem,
      (is.map fun i => { i with finding := i.finding.map Finding.withFix }).filterMap (·.finding) =
        (is.filterMap (·.finding)).map Finding.withFix := by
    intro is
    rw [List.filterMap_map, List.map_filterMap]
    rfl
  show ((driftItems results l t v d).map _).filterMap _ = _
  rw [hfix, driftItems, List.filterMap_append, filterMap_finding_driftOf,
    filterMap_finding_staleOf, List.append_nil]
  congr 1
  refine List.filter_congr fun f _ => ?_
  rw [Bool.eq_iff_iff, decide_eq_true_iff, bucketOf_eq_drift_iff]

/-- The drift without a finding comes from the unmatched entries. -/
theorem staleCount_merged (e : Entry) :
    (merged results l t v d target today time).staleCount e =
      (staleOf (ruling v t (asked results l d)) (unmatched results l d)).countP
        fun i => i.finding.isNone && i.entryId == e.id := by
  rw [staleCount]
  show ((driftItems results l t v d).map _).countP _ = _
  rw [List.countP_map, driftItems, List.countP_append]
  have hdrift : (driftOf l (ruling v t (asked results l d)) (FileResult.found d results)).countP
      ((fun i : DriftItem => i.finding.isNone && i.entryId == e.id) ∘
        fun i => { i with finding := i.finding.map Finding.withFix }) = 0 := by
    rw [List.countP_eq_zero]
    intro i hi
    have hsome := finding_isSome_of_mem_driftOf l _ _ hi
    simp [Option.isSome_iff_ne_none.mp hsome]
  rw [hdrift, Nat.zero_add]
  refine List.countP_congr fun i hi => ?_
  simp

/-- Under distinct ids, an entry is unmatched and not valid exactly when it is stale. -/
theorem isStale_iff (hids : (l.entries.map (·.id)).Nodup)
    (hverdicts : ∀ e ∈ l.entries, ∃ r, v.verdictOn t e = .ok r) {e : Entry} (he : e ∈ l.entries) :
    IsStale results l t v d e ↔
      ((!((coverers l (FileResult.found d results)).map (·.id)).contains e.id &&
        isFor (scannedNames results) e) && !(ruling v t (asked results l d) e).isValid) = true := by
  obtain ⟨r, hr⟩ := hverdicts e he
  have hvalid := ruling_asked_isValid_iff (d := d) hids hverdicts results he
  have hfor : isFor (scannedNames results) e = true ↔ e.file ∈ results.map (·.file) := by
    rw [isFor, Validator.unfit?_file_of_verdictOn hr, Option.isNone_none,
      Bool.true_and, scannedNames, List.contains_iff_mem, (eraseDups_spec _).2]
  have hcovered : ((coverers l (FileResult.found d results)).map (·.id)).contains e.id = true ↔
      ∃ f ∈ FileResult.found d results, l.covering? f = some e := by
    rw [List.contains_iff_mem, List.mem_map]
    constructor
    · rintro ⟨a, ha, hid⟩
      obtain ⟨f, hf, hfa⟩ := List.mem_filterMap.mp ha
      have hae : a = e := eq_of_id_eq hids (Ledger.mem_entries_of_covering? hfa) he hid
      exact ⟨f, hf, hae ▸ hfa⟩
    · rintro ⟨f, hf, hfe⟩
      exact ⟨e, List.mem_filterMap.mpr ⟨f, hf, hfe⟩, rfl⟩
  simp only [Bool.and_eq_true, Bool.not_eq_true', ← Bool.not_eq_true, hcovered, hfor, hvalid]
  constructor
  · rintro ⟨hscanned, hunmatched, hinvalid⟩
    refine ⟨⟨?_, hscanned⟩, hinvalid⟩
    rintro ⟨f, hf, hfe⟩
    exact hunmatched f hf hfe
  · rintro ⟨⟨hunmatched, hscanned⟩, hinvalid⟩
    exact ⟨hscanned, fun f hf hfe => hunmatched ⟨f, hf, hfe⟩, hinvalid⟩

theorem staleCount_eq (hids : (l.entries.map (·.id)).Nodup) {e : Entry} (he : e ∈ l.entries) :
    (merged results l t v d target today time).staleCount e =
      if (!((coverers l (FileResult.found d results)).map (·.id)).contains e.id &&
        isFor (scannedNames results) e) && !(ruling v t (asked results l d) e).isValid
      then 1 else 0 := by
  rw [staleCount_merged]
  exact countP_staleOf hids he _

theorem entry_of_stale {i : DriftItem} (hi : i ∈ (merged results l t v d target today time).drift)
    (hnone : i.finding = none) : ∃ e ∈ l.entries, i.entryId = e.id := by
  obtain ⟨j, hj, rfl⟩ := List.mem_map.mp hi
  rcases List.mem_append.mp hj with hdrift | hstale
  · have hsome := finding_isSome_of_mem_driftOf l _ _ hdrift
    rw [Option.map_eq_none_iff] at hnone
    rw [hnone] at hsome
    cases hsome
  · obtain ⟨e, he, rfl⟩ := List.mem_map.mp hstale
    exact ⟨e, List.mem_of_mem_filter (List.mem_of_mem_filter he), rfl⟩

/-- A report of a ledger with distinct ids, whose entries all get a verdict, partitions the
findings. -/
theorem assemble_partitions (results : List FileResult) (l : Ledger) (t : Tree) (v : Validator)
    (d : DefaultSeverity) (target today time : String) (hids : (l.entries.map (·.id)).Nodup)
    (hverdicts : ∀ e ∈ l.entries, ∃ r, (v.validate t e).1 = .ok r) :
    ∃ report, assemble results l t v d target today time = .ok report ∧
      ∃ bucket, Partitions results l t v d bucket report := by
  have hreportable : Reportable results l t v d := reportable_of_verdicts hids hverdicts
  refine ⟨merged results l t v d target today time, assemble_eq_ok_iff.mpr ⟨hreportable, rfl⟩,
    bucketOf l (ruling v t (asked results l d)), ?_⟩
  constructor
  case bucket_new =>
    intro f
    rw [bucketOf_eq_new_iff, Option.isNone_iff_eq_none, Ledger.covering?_eq_none_iff]
  case bucket_whitelisted =>
    intro f
    rw [bucketOf_eq_whitelisted_iff, Option.any_eq_true]
    refine exists_congr fun e => and_congr_right fun he => ?_
    exact ruling_asked_isValid_iff hids hverdicts results (Ledger.mem_entries_of_covering? he)
  case new =>
    show (newOf l (FileResult.found d results)).map _ = _
    rw [newOf]
    congr 1
    refine List.filter_congr fun f _ => ?_
    rw [Bool.eq_iff_iff, decide_eq_true_iff, bucketOf_eq_new_iff]
  case whitelisted =>
    show (whitelistedOf l _ (FileResult.found d results)).map _ = _
    rw [map_finding_whitelistedOf]
    refine List.filter_congr fun f _ => ?_
    rw [Bool.eq_iff_iff, decide_eq_true_iff, bucketOf_eq_whitelisted_iff]
  case drift => exact drift_findings
  case stale => exact fun i hi hnone => entry_of_stale hi hnone
  case stale_once =>
    intro e he hstale
    rw [staleCount_eq hids he, if_pos ((isStale_iff hids hverdicts he).mp hstale)]
  case stale_never =>
    intro e he hstale
    rw [staleCount_eq hids he, if_neg (mt (isStale_iff hids hverdicts he).mpr hstale)]
  case errors => rfl
  case summary =>
    rw [← length_eraseDups]
    rfl
  case shouldFail => exact shouldFail_merged

/-- A validator that has read one file. -/
def threeLines : Validator :=
  { root := { anchor := .root, parts := ["p"] },
    cache := [("a.js", .ok ["x.y;".toList, "p.q;".toList, "r.s;".toList])] }

/-- A ledger with a valid entry, one whose line has changed and one whose line is gone. -/
def threeEntries : Ledger :=
  { lastUpdated := "2025-03-04",
    entries :=
      [{ id := "n-1", file := "a.js", line := 1, approvedCodeSnapshot := "x.y;",
         approvedDate := "2025-03-04" },
       { id := "n-2", file := "a.js", line := 2, approvedCodeSnapshot := "q();",
         approvedDate := "2025-03-04" },
       { id := "n-3", file := "a.js", line := 9, approvedCodeSnapshot := "z.z;",
         approvedDate := "2025-03-04" }] }

/-- A file with a finding in each line, given twice, and a file that cannot be read. -/
def threeResults : List FileResult :=
  let at_ (line : Int) : Finding :=
    { file := "a.js", line, bindingName := "x", accessKind := .memberAccess, severity := .high }
  [{ file := "a.js", findings := [at_ 1, at_ 2, at_ 3] },
   { file := "b.js", error := some "Not a directory" },
   { file := "a.js", findings := [at_ 1] }]

theorem assemble_partitions_sample :
    (threeEntries.entries.map (·.id)).Nodup ∧
    (∀ e ∈ threeEntries.entries, ∃ r, (threeLines.validate {} e).1 = .ok r) ∧
    ∃ report, assemble threeResults threeEntries {} threeLines .error "" "2025-03-05" = .ok report ∧
      ∃ bucket, Partitions threeResults threeEntries {} threeLines .error bucket report := by
  have hids : (threeEntries.entries.map (·.id)).Nodup := by decide
  have hok : ∀ e ∈ threeEntries.entries, (threeLines.validate {} e).1.isOk = true := by
    decide +kernel
  have hverdicts : ∀ e ∈ threeEntries.entries, ∃ r, (threeLines.validate {} e).1 = .ok r := by
    intro e he
    have hisOk := hok e he
    cases hv : (threeLines.validate {} e).1 with
    | ok r => exact ⟨r, rfl⟩
    | error f =>
      rw [hv] at hisOk
      cases hisOk
  exact ⟨hids, hverdicts, assemble_partitions threeResults threeEntries {} threeLines .error ""
    "2025-03-05" noon hids hverdicts⟩

end ScanReport

end NullAccess
