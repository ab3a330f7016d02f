import NullAccess.Proofs.Report.Merge

/-!
# Which verdict suppresses a finding

Only a valid entry is meant to suppress a finding.  A report asks for one verdict per id, so what
suppresses a finding is the verdict on the first entry with the id of its own entry
(`whitelisted_iff_first_of_id_approved`).  Nothing keeps a ledger file from giving one id to two
entries, and then an entry that is not valid can suppress: `shared_id_suppresses`.
-/

namespace NullAccess.ScanReport

open Merge

variable {results : List FileResult} {l : Ledger} {t : Tree} {v : Validator} {d : DefaultSeverity}
  {target today time : String} {report : ScanReport}

/-- Every suppressed finding has an entry that is valid itself. -/
def SuppressesByOwnVerdict (l : Ledger) (t : Tree) (v : Validator) (r : ScanReport) : Prop :=
  ∀ w ∈ r.whitelisted, ∃ e, l.covering? w.finding = some e ∧ v.Approves t e

/-- The entry whose verdict counts for an entry that covers a finding: the first one that covers a
finding and has its id. -/
def firstOfId (results : List FileResult) (l : Ledger) (d : DefaultSeverity) (e : Entry) : Entry :=
  spokesman (coverers l (FileResult.found d results)) e

theorem mem_coverers {f : Finding} {e : Entry} (hf : f ∈ FileResult.found d results)
    (he : l.covering? f = some e) : e ∈ coverers l (FileResult.found d results) :=
  List.mem_filterMap.mpr ⟨f, hf, he⟩

theorem ruling_isValid_of_coverer (h : Reportable results l t v d) {e : Entry}
    (he : e ∈ coverers l (FileResult.found d results)) :
    (ruling v t (asked results l d) e).isValid = true ↔ v.Approves t (firstOfId results l d e) := by
  rw [ruling_isValid_iff (h.judged e (List.mem_append_left _ he)), asked, firstOfId,
    spokesman_append_of_mem he]

theorem mem_whitelisted_iff (h : Reportable results l t v d) {w : WhitelistedFinding} :
    w ∈ (merged results l t v d target today time).whitelisted ↔
      ∃ f ∈ FileResult.found d results, ∃ e, l.covering? f = some e ∧ w = ⟨f, e.id⟩ ∧
        v.Approves t (firstOfId results l d e) := by
  show w ∈ whitelistedOf l _ (FileResult.found d results) ↔ _
  rw [whitelistedOf, List.mem_filterMap]
  refine exists_congr fun f => and_congr_right fun hf => ?_
  rw [Option.bind_eq_some_iff]
  refine exists_congr fun e => and_congr_right fun he => ?_
  rw [← ruling_isValid_of_coverer h (mem_coverers hf he)]
  by_cases hvalid : (ruling v t (asked results l d) e).isValid = true
  · rw [if_pos hvalid]
    constructor
    · intro hw
      exact ⟨(Option.some_inj.mp hw).symm, hvalid⟩
    · rintro ⟨rfl, -⟩
      rfl
  · rw [if_neg hvalid]
    constructor
    · intro hw
      cases hw
    · intro hw
      exact absurd hw.2 hvalid

/-- What suppresses a finding, and when that is its entry's own verdict. -/
theorem whitelisted_iff_first_of_id_approved
    (h : assemble results l t v d target today time = .ok report) :
    (∀ w, w ∈ report.whitelisted ↔
      ∃ f ∈ FileResult.found d results, ∃ e, l.covering? f = some e ∧ w = ⟨f, e.id⟩ ∧
        v.Approves t (firstOfId results l d e)) ∧
    (SuppressesByOwnVerdict l t v report ↔
      ∀ f ∈ FileResult.found d results, ∀ e, l.covering? f = some e →
        v.Approves t (firstOfId results l d e) → v.Approves t e) ∧
    ((l.entries.map (·.id)).Nodup → SuppressesByOwnVerdict l t v report) := by
  obtain ⟨hreportable, rfl⟩ := assemble_eq_ok_iff.mp h
  have hlaw : SuppressesByOwnVerdict l t v (merged results l t v d target today time) ↔
      ∀ f ∈ FileResult.found d results, ∀ e, l.covering? f = some e →
        v.Approves t (firstOfId results l d e) → v.Approves t e := by
    constructor
    · intro hown f hf e he hfirst
      obtain ⟨e', he', happroves⟩ :=
        hown ⟨f, e.id⟩ ((mem_whitelisted_iff hreportable).mpr ⟨f, hf, e, he, rfl, hfirst⟩)
      rw [he, Option.some_inj] at he'
      exact he' ▸ happroves
    · intro hown w hw
      obtain ⟨f, hf, e, he, rfl, hfirst⟩ := (mem_whitelisted_iff hreportable).mp hw
      exact ⟨e, he, hown f hf e he hfirst⟩
  refine ⟨fun w => mem_whitelisted_iff hreportable, hlaw, fun hids => hlaw.mpr ?_⟩
  intro f hf e he hfirst
  have hself : firstOfId results l d e = e := by
    refine spokesman_eq_self fun a ha hid => ?_
    obtain ⟨g, -, hg⟩ := List.mem_filterMap.mp ha
    exact eq_of_id_eq hids (Ledger.mem_entries_of_covering? hg)
      (Ledger.mem_entries_of_covering? he) hid
  exact hself ▸ hfirst

/-! ## Two entries with one id -/

/-- The text of a ledger that gives one id to two entries. -/
def sharedIdText : String :=
  "\x7b\"entries\": [" ++
    "\x7b\"id\": \"n-1\", \"file\": \"a.js\", \"line\": 1, " ++
      "\"approved_code_snapshot\": \"x.y;\"\x7d, " ++
    "\x7b\"id\": \"n-1\", \"file\": \"b.js\", \"line\": 1, " ++
      "\"approved_code_snapshot\": \"z.z;\"\x7d]\x7d"

/-- A project with this ledger and two files.  The line of the first entry is as it was approved,
that of the second is not. -/
def sharedIdTree : Tree :=
  ⟨[(["p"], .dir), (["p", "ledger.json"], .file sharedIdText.toUTF8),
    (["p", "a.js"], .file "x.y;".toUTF8), (["p", "b.js"], .file "p.q;".toUTF8)]⟩

/-- The ledger that the text denotes. -/
def sharedIdStore : Store :=
  { path := { anchor := .root, parts := ["p", "ledger.json"] },
    data :=
      { lastUpdated := "2025-03-04",
        entries :=
          [{ id := "n-1", file := "a.js", line := 1, approvedCodeSnapshot := "x.y;",
             approvedDate := "2025-03-04" },
           { id := "n-1", file := "b.js", line := 1, approvedCodeSnapshot := "z.z;",
             approvedDate := "2025-03-04" }] } }

def sharedIdValidator : Validator := { root := { anchor := .root, parts := ["p"] } }

/-- A finding in the first line of a file. -/
def firstLineFinding (file : String) : Finding :=
  { file, line := 1, bindingName := "x", accessKind := .memberAccess, severity := .high }

def sharedIdResults : List FileResult :=
  [{ file := "a.js", findings := [firstLineFinding "a.js"] },
   { file := "b.js", findings := [firstLineFinding "b.js"] }]

theorem assemble_sharedId :
    ∃ r, assemble sharedIdResults sharedIdStore.data sharedIdTree sharedIdValidator .error ""
        "2025-03-04" = .ok r ∧
      ⟨firstLineFinding "b.js", "n-1"⟩ ∈ r.whitelisted := by
  have h : (assemble sharedIdResults sharedIdStore.data sharedIdTree sharedIdValidator .error ""
      "2025-03-04").toOption.any
        (·.whitelisted.contains ⟨firstLineFinding "b.js", "n-1"⟩) = true := by
    decide +kernel
  cases hr : assemble sharedIdResults sharedIdStore.data sharedIdTree sharedIdValidator .error ""
      "2025-03-04" with
  | error f =>
    rw [hr] at h
    cases h
  | ok r =>
    rw [hr] at h
    exact ⟨r, rfl, List.contains_iff_mem.mp h⟩

/-- The entry of the second file is not valid. -/
theorem not_approves_sharedId {e : Entry}
    (he : sharedIdStore.data.covering? (firstLineFinding "b.js") = some e) :
    ¬ sharedIdValidator.Approves sharedIdTree e := by
  rintro ⟨r, hr, hvalid⟩
  have h : ((sharedIdStore.data.covering? (firstLineFinding "b.js")).all fun e =>
      !(sharedIdValidator.verdictOn sharedIdTree e).toOption.any (·.isValid)) = true := by
    decide +kernel
  rw [he, Option.all_some, hr] at h
  simp [Except.toOption, hvalid] at h

theorem whitelisted_iff_first_of_id_approved_sample :
    ∃ r, assemble sharedIdResults sharedIdStore.data sharedIdTree sharedIdValidator .error ""
        "2025-03-04" = .ok r ∧
      ∃ f ∈ FileResult.found .error sharedIdResults, ∃ e,
        sharedIdStore.data.covering? f = some e ∧ f = firstLineFinding "b.js" ∧
          sharedIdValidator.Approves sharedIdTree
            (firstOfId sharedIdResults sharedIdStore.data .error e) := by
  obtain ⟨r, hr, hmem⟩ := assemble_sharedId
  obtain ⟨f, hf, e, he, hw, hfirst⟩ :=
    ((whitelisted_iff_first_of_id_approved hr).1 _).mp hmem
  rw [WhitelistedFinding.mk.injEq] at hw
  exact ⟨r, hr, f, hf, e, he, hw.1.symm, hfirst⟩

/-- A ledger that gives one id to two entries is read without complaint, and then an entry that is
not valid suppresses a finding. -/
theorem shared_id_suppresses :
    Store.load sharedIdTree sharedIdStore.path "2025-03-04" = .ok (sharedIdStore, []) ∧
    ∃ r, assemble sharedIdResults sharedIdStore.data sharedIdTree sharedIdValidator .error ""
        "2025-03-04" = .ok r ∧
      ¬ SuppressesByOwnVerdict sharedIdStore.data sharedIdTree sharedIdValidator r := by
  refine ⟨by decide +kernel, ?_⟩
  obtain ⟨r, hr, hmem⟩ := assemble_sharedId
  refine ⟨r, hr, fun hown => ?_⟩
  obtain ⟨e, he, happroves⟩ := hown _ hmem
  exact not_approves_sharedId he happroves

end NullAccess.ScanReport
