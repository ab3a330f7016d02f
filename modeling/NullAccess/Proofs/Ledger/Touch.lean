import NullAccess.Drift.Validate
import NullAccess.Proofs.Ledger.Atomic

/-!
# Dates that stay

A validation of the whole ledger dates the entries that are valid and then saves the ledger without
a way back.  So when the ledger cannot be written the dates stay in memory, with new counts and a
new date of the ledger, while the file is as it was (`failed_touch_leaves_dates`).
-/

namespace NullAccess.Store

open NullAccess.Tree

variable {s s' : Store} {t t' : Tree} {today : String} {v v' : Validator}

/-! ## Dating entries -/

theorem dated_id (today : String) (e : Entry) : (dated today e).id = e.id := rfl

theorem dated_dated (today : String) (e : Entry) : dated today (dated today e) = dated today e := by
  simp [dated, Change.apply, Change.keptUnfit]

/-- The entries with a date on the first one of each of some ids. -/
def datedFirsts (today : String) : List String → List Entry → List Entry
  | _, [] => []
  | ids, e :: rest =>
    (if e.id ∈ ids then dated today e else e) ::
      datedFirsts today (ids.filter (· != e.id)) rest

theorem datedFirsts_nil (today : String) (es : List Entry) : datedFirsts today [] es = es := by
  induction es with
  | nil => rfl
  | cons e rest ih =>
    rw [datedFirsts, if_neg List.not_mem_nil, List.filter_nil, ih]

/-- Dating the first entry of one more id. -/
theorem modifyEntry_datedFirsts (id : String) (ids : List String) (es : List Entry) :
    Ledger.modifyEntry id (dated today) (datedFirsts today ids es) =
      datedFirsts today (ids ++ [id]) es := by
  induction es generalizing ids with
  | nil => rfl
  | cons e rest ih =>
    rw [datedFirsts, datedFirsts, Ledger.modifyEntry, List.filter_append]
    have hid : (if e.id ∈ ids then dated today e else e).id = e.id := by
      split
      · exact dated_id today e
      · rfl
    rw [hid]
    by_cases h : e.id = id
    · have hdated : dated today (if e.id ∈ ids then dated today e else e) = dated today e := by
        split
        · exact dated_dated today e
        · rfl
      have hmem : e.id ∈ ids ++ [id] := List.mem_append_right ids (List.mem_singleton.mpr h)
      have hgone : [id].filter (· != e.id) = [] := by simp [h]
      rw [if_pos h, if_pos hmem, hdated, hgone, List.append_nil]
    · have hmem : e.id ∈ ids ++ [id] ↔ e.id ∈ ids := by simp [h]
      have hstays : [id].filter (· != e.id) = [id] := by simp [Ne.symm h]
      rw [if_neg h, ih, hstays]
      simp only [hmem]

/-- The ids of the entries that were found valid. -/
def validIds (results : List ValidationResult) : List String :=
  (results.filter (·.isValid)).map (·.entryId)

theorem foldl_touch (results : List ValidationResult) (ids : List String) (l : Ledger) :
    results.foldl (touch today) { l with entries := datedFirsts today ids l.entries } =
      { l with entries := datedFirsts today (ids ++ validIds results) l.entries } := by
  induction results generalizing ids with
  | nil => simp [validIds]
  | cons r rest ih =>
    rw [List.foldl_cons, touch]
    split
    · rename_i hvalid
      dsimp only
      rw [modifyEntry_datedFirsts, ih]
      simp [validIds, hvalid]
    · rename_i hvalid
      rw [ih]
      simp [validIds, hvalid]

theorem touched_eq (results : List ValidationResult) (l : Ledger) :
    results.foldl (touch today) l =
      { l with entries := datedFirsts today (validIds results) l.entries } := by
  have h : results.foldl (touch today) { l with entries := datedFirsts today [] l.entries } =
      { l with entries := datedFirsts today ([] ++ validIds results) l.entries } :=
    foldl_touch results [] l
  rwa [datedFirsts_nil, List.nil_append] at h

/-! ## Validating the whole ledger -/

/-- What a validation with dates does: it stops, finds no date to change, or saves the dated
ledger. -/
theorem validateAll_cases {r : Except ValidationStop (List ValidationResult)}
    (h : s.validateAll t today v true = (t', s', v', r)) :
    (∃ f, r = .error (.fault f) ∧ t' = t ∧ s' = s) ∨
    ∃ results, v.validateEntries t s.data.entries = (.ok results, v') ∧
      (results.foldl (touch today) s.data = s.data ∧ r = .ok results ∧ t' = t ∧ s' = s ∨
        results.foldl (touch today) s.data ≠ s.data ∧
          ∃ out, Store.save { s with data := results.foldl (touch today) s.data } t today =
              ⟨t', s', out⟩ ∧
            r = (out.map fun _ => results).mapError .ledger) := by
  unfold validateAll at h
  split at h
  · rename_i f _ _
    cases h
    exact .inl ⟨f, rfl, rfl, rfl⟩
  · rename_i results w hresults
    rw [if_pos rfl] at h
    dsimp only at h
    refine .inr ⟨results, ?_⟩
    split at h
    · rename_i hsame
      cases h
      exact ⟨hresults, .inl ⟨hsame, rfl, rfl, rfl⟩⟩
    · rename_i hchanged
      split at h
      · rename_i hsave
        cases h
        exact ⟨hresults, .inr ⟨hchanged, _, hsave, rfl⟩⟩
      · rename_i hsave
        cases h
        exact ⟨hresults, .inr ⟨hchanged, _, hsave, rfl⟩⟩

/-- If the ledger cannot be written after a validation, its file is as it was.  In memory the first
entry of every valid id has today's date, and at least one did not have it before; counts and date
of the ledger are new. -/
theorem failed_touch_leaves_dates {path : Path} {cause : Cause}
    (h : s.validateAll t today v true = (t', s', v', .error (.ledger (.writeFailed path cause)))) :
    FileKept s.path t t' ∧
    ∃ results, v.validateEntries t s.data.entries = (.ok results, v') ∧
      s'.path = s.path ∧
      s'.data = Ledger.stamped
        { s.data with entries := datedFirsts today (validIds results) s.data.entries } today ∧
      s'.data.entries ≠ s.data.entries := by
  rcases validateAll_cases h with ⟨f, hstop, -⟩ | ⟨results, hresults, hend⟩
  · cases hstop
  · rcases hend with ⟨-, hok, -⟩ | ⟨hchanged, out, hsave, hout⟩
    · cases hok
    · cases out with
      | ok _ => cases hout
      | error e =>
        cases hout
        rw [touched_eq] at hchanged hsave
        have hkept := fileKept_of_save hsave
        rcases save_eq_error hsave with ⟨-, -, -, hstop⟩ | ⟨-, rfl, -⟩
        · cases hstop
        · refine ⟨hkept, results, hresults, rfl, rfl, fun hentries => hchanged ?_⟩
          have hsame : datedFirsts today (validIds results) s.data.entries = s.data.entries :=
            hentries
          rw [hsame]

/-- An open ledger with an entry of 2025-01-01 for a line. -/
def datelessLedger : Store :=
  { path := { anchor := .root, parts := ["p", "l.json"] },
    data :=
      { lastUpdated := "2025-01-01",
        entries :=
          [{ id := "n-1", file := "a.js", line := 1, approvedCodeSnapshot := "x.y;",
             approvedDate := "2025-01-01" }] } }

/-- The line is as it was approved, and the ledger cannot be written. -/
def blockedProject : Tree :=
  ⟨[(["p"], .dir), (["p", "a.js"], .file "x.y;\n".toUTF8), (["p", "l.json.tmp"], .dir)]⟩

/-- The validation of the ledger on a later day. -/
def blockedTouch :
    Tree × Store × Validator × Except ValidationStop (List ValidationResult) :=
  datelessLedger.validateAll blockedProject "2025-03-04"
    { root := { anchor := .root, parts := ["p"] } } true

theorem failed_touch_leaves_dates_sample :
    ∃ t' s' v', blockedTouch =
        (t', s', v', .error (.ledger (.writeFailed datelessLedger.path .isDirectory))) ∧
      FileKept datelessLedger.path blockedProject t' ∧
      s'.data.entries ≠ datelessLedger.data.entries := by
  have hfails : blockedTouch.2.2.2 =
      .error (.ledger (.writeFailed datelessLedger.path .isDirectory)) := by
    decide +kernel
  rcases h : blockedTouch with ⟨t', s', v', r⟩
  rw [h] at hfails
  obtain rfl : r = _ := hfails
  obtain ⟨hfile, -, -, -, -, hentries⟩ := failed_touch_leaves_dates h
  exact ⟨t', s', v', rfl, hfile, hentries⟩

/-- The entry that was found valid keeps its new date although the ledger could not be written. -/
theorem failed_touch_dates_entry :
    blockedTouch.2.2.2 = .error (.ledger (.writeFailed datelessLedger.path .isDirectory)) ∧
      datelessLedger.data.entries.map (·.lastValidatedDate) = [none] ∧
      blockedTouch.2.1.data.entries.map (·.lastValidatedDate) = [some "2025-03-04"] := by
  decide +kernel

end NullAccess.Store
