import NullAccess.Proofs.Drift.Sequence
import NullAccess.Proofs.Drift.Snapshot
import NullAccess.Proofs.Ledger.Frame
import NullAccess.Proofs.Ledger.Touch

/-!
# Dates of valid entries

A validation with dates links its results back to the entries by their ids.  Where ids are distinct
this comes to the same as dating the entries in step with their results
(`Verdicts.getElem?_datedFirsts`).  A verdict does not look at the date (`judge_dated`), so an entry
that was dated is found valid again, and a second validation on the same day finds nothing to write
(`touch_dates_valid_entries`).
-/

namespace NullAccess

open Store

/-! ## The date of an entry -/

/-- The entry was last validated on a day. -/
def Entry.IsDated (e : Entry) (day : String) : Prop :=
  e.unfit? "last_validated_date" = none ∧ e.lastValidatedDate = some day

namespace Store

variable {today : String} {e : Entry}

theorem dated_eq_self_iff : dated today e = e ↔ e.IsDated today := by
  have hnone : e.unfit? "last_validated_date" = none ↔
      e.unfit.filter (·.1 != "last_validated_date") = e.unfit := by
    rw [Entry.unfit?, Json.field?, Option.map_eq_none_iff, List.find?_eq_none, List.filter_eq_self]
    simp
  rw [Entry.IsDated, hnone]
  constructor
  · intro h
    exact ⟨congrArg Entry.unfit h, (congrArg Entry.lastValidatedDate h).symm⟩
  · intro h
    show ({ e with lastValidatedDate := some today, unfit := e.unfit.filter _ } : Entry) = e
    rw [← h.2]
    exact congrArg (fun unfit => ({ e with unfit } : Entry)) h.1

theorem isDated_dated (today : String) (e : Entry) : (dated today e).IsDated today :=
  dated_eq_self_iff.mp (dated_dated today e)

theorem get?_dated (today : String) (e : Entry) (name : String) :
    (dated today e).toJson.get? name =
      if name = "last_validated_date" then some (.str today) else e.toJson.get? name :=
  Entry.get?_apply (c := .lastValidatedDate (some today)) rfl e name

end Store

/-! ## The date does not show in the verdict -/

namespace Validator

variable {read : String → Except Cause (List Line)} {enforce : Bool} {today : String} {e : Entry}
  {r r' : ValidationResult}

theorem unfit?_dated {name : String} (h : name ≠ "last_validated_date") :
    (dated today e).unfit? name = e.unfit? name := by
  have happly := Change.unfit?_apply (c := .lastValidatedDate (some today)) rfl rfl e name
  exact happly.trans (if_neg h)

theorem numbered_dated (today : String) (e : Entry) :
    numbered (dated today e) = dated today (numbered e) := by
  unfold numbered
  rw [unfit?_dated (by decide)]
  cases (e.unfit? "line").bind Json.toInt? <;> rfl

theorem unfitFault?_dated (found : Except Cause (List Line)) :
    unfitFault? (dated today e) found = unfitFault? e found := by
  unfold unfitFault?
  rw [unfit?_dated (by decide), unfit?_dated (by decide), unfit?_dated (by decide)]
  rfl

theorem judgeLines_dated (lines : List Line) :
    judgeLines read enforce (dated today e) lines = judgeLines read enforce e lines := by
  have hissue : lineIssue? (dated today e) lines = lineIssue? e lines := by
    unfold lineIssue?
    rw [unfit?_dated (by decide)]
    rfl
  unfold judgeLines
  rw [hissue]
  rfl

theorem judge_dated (today : String) (e : Entry) :
    judge read enforce (dated today e) = judge read enforce e := by
  simp only [judge, numbered_dated, unfitFault?_dated, judgeLines_dated]
  rfl

/-! ## The id in the verdict -/

theorem judgeDependencies_entryId (h : judgeDependencies read e r = .ok r') :
    r'.entryId = r.entryId := by
  unfold judgeDependencies at h
  split at h
  · cases h
  · split at h <;> cases h <;> rfl
  · cases h
    rfl

theorem judgeLines_entryId {lines : List Line} (h : judgeLines read enforce e lines = .ok r) :
    r.entryId = e.id := by
  unfold judgeLines at h
  dsimp only at h
  split at h
  · cases h
    rfl
  · split at h
    · split at h
      · cases h
      · split at h
        · cases h
          rfl
        · exact judgeDependencies_entryId h
    · exact judgeDependencies_entryId h

theorem judge_entryId (h : judge read enforce e = .ok r) : r.entryId = e.id := by
  unfold judge at h
  dsimp only at h
  split at h
  · cases h
  · split at h
    · cases h
      exact numbered_id e
    · cases h
  · rw [judgeLines_entryId h]
    exact numbered_id e

end Validator

/-! ## Entries in step with their results -/

namespace Store

variable {s s' : Store} {t t' : Tree} {today : String} {v v' : Validator} {es : List Entry}
  {results : List ValidationResult} {r : ValidationResult}

theorem datedFirsts_eq_map (hids : (es.map (·.id)).Nodup) (ids : List String) :
    datedFirsts today ids es = es.map fun e => if e.id ∈ ids then dated today e else e := by
  induction es generalizing ids with
  | nil => rfl
  | cons e rest ih =>
    rw [List.map_cons, List.nodup_cons] at hids
    rw [datedFirsts, List.map_cons, ih hids.2]
    congr 1
    refine List.map_congr_left fun a ha => ?_
    have hne : a.id ≠ e.id := fun heq => hids.1 (List.mem_map.mpr ⟨a, ha, heq⟩)
    simp [hne]

theorem datedFirsts_datedFirsts (ids : List String) (es : List Entry) :
    datedFirsts today ids (datedFirsts today ids es) = datedFirsts today ids es := by
  induction es generalizing ids with
  | nil => rfl
  | cons e rest ih =>
    by_cases h : e.id ∈ ids
    · have hdated : (dated today e).id ∈ ids := h
      rw [datedFirsts, if_pos h, datedFirsts, if_pos hdated, dated_dated, dated_id, ih]
    · rw [datedFirsts, if_neg h, datedFirsts, if_neg h, ih]

theorem mapM_datedFirsts {f g : Entry → Except Fault ValidationResult}
    (hdated : ∀ e, f (dated today e) = f e) (h : ∀ e ∈ es, f e = g e) (ids : List String) :
    (datedFirsts today ids es).mapM f = es.mapM g := by
  induction es generalizing ids with
  | nil => rfl
  | cons e rest ih =>
    obtain ⟨he, hrest⟩ := List.forall_mem_cons.mp h
    have hfirst : f (if e.id ∈ ids then dated today e else e) = g e := by
      split
      · rw [hdated, he]
      · exact he
    rw [datedFirsts, List.mapM_cons, List.mapM_cons, hfirst, ih hrest]

theorem entryId_mem_validIds_iff (hids : (results.map (·.entryId)).Nodup) (hr : r ∈ results) :
    r.entryId ∈ validIds results ↔ r.isValid = true := by
  simp only [validIds, List.mem_map, List.mem_filter]
  constructor
  · intro h
    obtain ⟨r', ⟨hr', hvalid⟩, hid⟩ := h
    rwa [← List.inj_on_of_nodup_map hids hr' hr hid]
  · intro h
    exact ⟨r, ⟨hr, h⟩, rfl⟩

theorem forall₂_of_mapM {f : Entry → Except Fault ValidationResult}
    (h : es.mapM f = .ok results) : List.Forall₂ (fun e r => f e = .ok r) es results := by
  induction es generalizing results with
  | nil =>
    cases h
    exact .nil
  | cons e rest ih =>
    rw [List.mapM_cons] at h
    cases hfirst : f e with
    | error fault =>
      rw [hfirst] at h
      cases h
    | ok r =>
      cases hrest : rest.mapM f with
      | error fault =>
        rw [hfirst, hrest] at h
        cases h
      | ok rs =>
        rw [hfirst, hrest] at h
        cases h
        exact .cons hfirst (ih hrest)

theorem forall₂_validateEntries (h : v.validateEntries t es = (.ok results, v')) :
    List.Forall₂ (fun e r => (v.validate t e).1 = .ok r) es results := by
  have hmapM := (Validator.Continues.refl t v).validateEntries_fst es
  rw [h] at hmapM
  exact forall₂_of_mapM hmapM.symm

/-- Dated entries get the same results, from every validator that goes by the same rules and takes
their files to hold the same. -/
theorem validateEntries_datedFirsts {t₂ : Tree} {v₂ : Validator} (henforce : v₂.enforce = v.enforce)
    (hknown : ∀ e ∈ es, v₂.known t₂ e.file = v.known t e.file ∧
      ∀ d ∈ e.dependencies, v₂.known t₂ d.targetFile = v.known t d.targetFile)
    (h : v.validateEntries t es = (.ok results, v')) (ids : List String) :
    ∃ v₃, v₂.validateEntries t₂ (datedFirsts today ids es) = (.ok results, v₃) := by
  have hsame : ∀ e ∈ es, (v₂.validate t₂ e).1 = (v.validate t e).1 := by
    intro e he
    obtain ⟨hfile, hdeps⟩ := hknown e he
    rw [Validator.validate_fst, Validator.validate_fst, henforce]
    exact Validator.judge_congr hfile hdeps
  have hdated : ∀ e, (v₂.validate t₂ (dated today e)).1 = (v₂.validate t₂ e).1 := by
    intro e
    rw [Validator.validate_fst, Validator.validate_fst, Validator.judge_dated]
  have hfirst := (Validator.Continues.refl t v).validateEntries_fst es
  have hagain := (Validator.Continues.refl t₂ v₂).validateEntries_fst (datedFirsts today ids es)
  rw [mapM_datedFirsts hdated hsame, ← hfirst, h] at hagain
  exact ⟨(v₂.validateEntries t₂ (datedFirsts today ids es)).2, Prod.ext hagain rfl⟩

/-- Some entry that was found valid has another date. -/
def AnyUndated (today : String) (es : List Entry) (results : List ValidationResult) : Prop :=
  ∃ (i : Nat) (e : Entry) (r : ValidationResult),
    es[i]? = some e ∧ results[i]? = some r ∧ r.isValid = true ∧ ¬ e.IsDated today

/-- The results are those on the entries of a ledger whose ids are distinct. -/
structure Verdicts (es : List Entry) (results : List ValidationResult) : Prop where
  nodup : (es.map (·.id)).Nodup
  ids : List.Forall₂ (fun e r => r.entryId = e.id) es results

namespace Verdicts

variable (h : Verdicts es results) {e : Entry}

include h

theorem nodup_entryId : (results.map (·.entryId)).Nodup := by
  have hmap : results.map (·.entryId) = es.map (·.id) := by
    have hids := h.ids
    clear h
    induction hids with
    | nil => rfl
    | cons hfirst _ ih => rw [List.map_cons, List.map_cons, hfirst, ih]
  rw [hmap]
  exact h.nodup

theorem mem_validIds_iff {i : Nat} (he : es[i]? = some e) (hr : results[i]? = some r) :
    e.id ∈ validIds results ↔ r.isValid = true := by
  have hzip : (es.zip results)[i]? = some (e, r) := List.getElem?_zip_eq_some.mpr ⟨he, hr⟩
  have hid : r.entryId = e.id := List.forall₂_zip h.ids (List.mem_of_getElem? hzip)
  rw [← hid]
  exact entryId_mem_validIds_iff h.nodup_entryId (List.mem_of_getElem? hr)

/-- An entry whose result is valid is dated, and any other stays as it is. -/
theorem getElem?_datedFirsts {i : Nat} (he : es[i]? = some e) (hr : results[i]? = some r) :
    (datedFirsts today (validIds results) es)[i]? =
      some (if r.isValid then dated today e else e) := by
  rw [datedFirsts_eq_map h.nodup, List.getElem?_map, he, Option.map_some]
  simp only [h.mem_validIds_iff he hr]

theorem exists_result {i : Nat} (he : es[i]? = some e) : ∃ r, results[i]? = some r := by
  obtain ⟨hi, -⟩ := List.getElem?_eq_some_iff.mp he
  exact ⟨_, List.getElem?_eq_getElem (h.ids.length_eq ▸ hi)⟩

/-- Dating changes the entries exactly if some valid one has another date. -/
theorem datedFirsts_eq_self_iff :
    datedFirsts today (validIds results) es = es ↔ ¬ AnyUndated today es results := by
  constructor
  · intro hsame hundated
    obtain ⟨i, e, r, he, hr, hvalid, hdate⟩ := hundated
    have hdated : _ = some (if r.isValid then dated today e else e) := h.getElem?_datedFirsts he hr
    rw [hsame, he, if_pos hvalid] at hdated
    exact hdate (dated_eq_self_iff.mp (Option.some.inj hdated).symm)
  · intro hnone
    have hlength : (datedFirsts today (validIds results) es).length = es.length := by
      rw [datedFirsts_eq_map h.nodup, List.length_map]
    refine List.ext_getElem? fun i => ?_
    cases he : es[i]? with
    | none =>
      rw [List.getElem?_eq_none_iff] at he ⊢
      omega
    | some e =>
      obtain ⟨r, hr⟩ := h.exists_result he
      rw [h.getElem?_datedFirsts he hr]
      split
      · rename_i hvalid
        by_cases hdate : e.IsDated today
        · rw [dated_eq_self_iff.mpr hdate]
        · exact absurd ⟨i, e, r, he, hr, hvalid, hdate⟩ hnone
      · rfl

end Verdicts

theorem verdicts_of_forall₂ (hids : (es.map (·.id)).Nodup)
    (h : List.Forall₂ (fun e r => (v.validate t e).1 = .ok r) es results) :
    Verdicts es results := by
  refine ⟨hids, h.imp fun e r hr => ?_⟩
  rw [Validator.validate_fst] at hr
  exact Validator.judge_entryId hr

/-! ## Validating with dates -/

/-- A validation that finds no date to change writes nothing. -/
theorem validateAll_of_same {touching : Bool}
    (hresults : v.validateEntries t s.data.entries = (.ok results, v'))
    (hsame : touching = true → results.foldl (touch today) s.data = s.data) :
    s.validateAll t today v touching = (t, s, v', .ok results) := by
  have htouched : (if touching then results.foldl (touch today) s.data else s.data) = s.data := by
    split
    · rename_i htouching
      exact hsame htouching
    · rfl
  unfold validateAll
  rw [hresults]
  exact if_pos htouched

/-- What a validation with dates does when it comes to its end: it saves the dated ledger, or all
valid entries are dated already. -/
theorem validateAll_eq_ok (hids : (s.data.entries.map (·.id)).Nodup)
    (h : s.validateAll t today v true = (t', s', v', .ok results)) :
    v.validateEntries t s.data.entries = (.ok results, v') ∧
      s'.path = s.path ∧ s'.data.version = s.data.version ∧
      s'.data.frameworks = s.data.frameworks ∧
      s'.data.entries = datedFirsts today (validIds results) s.data.entries ∧
      (AnyUndated today s.data.entries results →
        Wrote s t today { s.data with entries := s'.data.entries } t' s') ∧
      (¬ AnyUndated today s.data.entries results → t' = t ∧ s' = s) := by
  rcases validateAll_cases h with ⟨f, hstop, -⟩ | ⟨found, hresults, hend⟩
  · cases hstop
  obtain rfl : found = results := by
    rcases hend with ⟨-, hok, -⟩ | ⟨-, out, -, hok⟩
    · cases hok
      rfl
    · cases out with
      | error e => cases hok
      | ok _ =>
        cases hok
        rfl
  refine ⟨hresults, ?_⟩
  have hself : datedFirsts today (validIds found) s.data.entries = s.data.entries ↔
      ¬ AnyUndated today s.data.entries found :=
    (verdicts_of_forall₂ hids (forall₂_validateEntries hresults)).datedFirsts_eq_self_iff
  rcases hend with ⟨hsame, -, rfl, rfl⟩ | ⟨hchanged, out, hsave, hok⟩
  · rw [touched_eq] at hsame
    have hentries := congrArg Ledger.entries hsame
    exact ⟨rfl, rfl, rfl, hentries.symm, fun hundated => absurd hundated (hself.mp hentries),
      fun _ => ⟨rfl, rfl⟩⟩
  · rw [touched_eq] at hchanged hsave
    cases out with
    | error e => cases hok
    | ok _ =>
      have hwrote := save_eq_ok_iff.mp hsave
      obtain rfl := hwrote.store
      refine ⟨rfl, rfl, rfl, rfl, fun _ => hwrote, fun hnone => absurd ?_ hchanged⟩
      rw [hself.mpr hnone]

/-- On a ledger whose ids are distinct, a validation with dates that comes to its end gives the
results of one without dates, one for each entry in order.  The valid entries have today's date
then, and nothing else in the ledger is changed.  The ledger is written if a valid entry had another
date, and otherwise not.  So a second validation on the same day, by the same rules and with the
same contents of the files that the entries name, gives the same results and writes nothing. -/
theorem touch_dates_valid_entries (hids : (s.data.entries.map (·.id)).Nodup)
    (h : s.validateAll t today v true = (t', s', v', .ok results)) :
    s.validateAll t today v false = (t, s, v', .ok results) ∧
    results.length = s.data.entries.length ∧ s'.data.entries.length = s.data.entries.length ∧
    (∀ (i : Nat) (e : Entry) (r : ValidationResult),
      s.data.entries[i]? = some e → results[i]? = some r →
        (v.validate t e).1 = .ok r ∧ r.entryId = e.id ∧
        ∃ e', s'.data.entries[i]? = some e' ∧
          if r.isValid then
            e'.IsDated today ∧ ∀ name, e'.toJson.get? name =
              if name = "last_validated_date" then some (.str today) else e.toJson.get? name
          else e' = e) ∧
    s'.path = s.path ∧ s'.data.version = s.data.version ∧
    s'.data.frameworks = s.data.frameworks ∧
    (AnyUndated today s.data.entries results →
      Wrote s t today { s.data with entries := s'.data.entries } t' s') ∧
    (¬ AnyUndated today s.data.entries results → t' = t ∧ s' = s) ∧
    ∀ (t₂ : Tree) (v₂ : Validator), v₂.enforce = v.enforce →
      (∀ e ∈ s.data.entries, v₂.known t₂ e.file = v.known t e.file ∧
        ∀ d ∈ e.dependencies, v₂.known t₂ d.targetFile = v.known t d.targetFile) →
      ∃ v₃, s'.validateAll t₂ today v₂ true = (t₂, s', v₃, .ok results) := by
  obtain ⟨hresults, hpath, hversion, hframeworks, hentries, hwrote, hkept⟩ :=
    validateAll_eq_ok hids h
  have hverdicts := forall₂_validateEntries hresults
  have hids' := verdicts_of_forall₂ hids hverdicts
  refine ⟨?_, hverdicts.length_eq.symm, ?_, ?_, hpath, hversion, hframeworks, hwrote, hkept, ?_⟩
  · exact validateAll_of_same hresults nofun
  · rw [hentries, datedFirsts_eq_map hids, List.length_map]
  · intro i e r he hr
    have hzip : (s.data.entries.zip results)[i]? = some (e, r) :=
      List.getElem?_zip_eq_some.mpr ⟨he, hr⟩
    have hmem := List.mem_of_getElem? hzip
    refine ⟨List.forall₂_zip hverdicts hmem, List.forall₂_zip hids'.ids hmem, ?_⟩
    refine ⟨if r.isValid then dated today e else e, ?_, ?_⟩
    · rw [hentries]
      exact hids'.getElem?_datedFirsts he hr
    · split
      · exact ⟨isDated_dated today e, get?_dated today e⟩
      · rfl
  · intro t₂ v₂ henforce hknown
    -- Dates do not count in a verdict, and dating a second time changes nothing.
    obtain ⟨v₃, hagain⟩ := validateEntries_datedFirsts henforce hknown hresults (validIds results)
    rw [← hentries] at hagain
    refine ⟨v₃, validateAll_of_same hagain fun _ => ?_⟩
    rw [touched_eq, hentries, datedFirsts_datedFirsts, ← hentries]

/-- A ledger with an approval that holds, one whose line has changed, one whose file is gone and one
that holds and was validated on the day already. -/
def mixedLedger : Store :=
  { path := { anchor := .root, parts := ["p", "l.json"] },
    data :=
      { lastUpdated := "2025-01-01",
        entries :=
          [{ id := "n-1", file := "a.js", line := 1, approvedCodeSnapshot := "x.y;",
             approvedDate := "2025-01-01" },
           { id := "n-2", file := "a.js", line := 2, approvedCodeSnapshot := "x.y;",
             approvedDate := "2025-01-01" },
           { id := "n-3", file := "b.js", line := 1, approvedCodeSnapshot := "x.y;",
             approvedDate := "2025-01-01" },
           { id := "n-4", file := "a.js", line := 2, approvedCodeSnapshot := "u.v;",
             approvedDate := "2025-01-01", lastValidatedDate := some "2025-03-04" }] } }

def mixedProject : Tree :=
  ⟨[(["p"], .dir), (["p", "a.js"], .file "x.y;\nu.v;\n".toUTF8)]⟩

def mixedValidator : Validator := { root := { anchor := .root, parts := ["p"] } }

def mixedTouch :
    Tree × Store × Validator × Except ValidationStop (List ValidationResult) :=
  mixedLedger.validateAll mixedProject "2025-03-04" mixedValidator true

theorem touch_dates_valid_entries_sample :
    ∃ t' s' v' results, mixedTouch = (t', s', v', .ok results) ∧
      results.map (·.state) = [.valid, .drifted, .broken, .valid] ∧
      s'.data.entries.map (·.lastValidatedDate) =
        [some "2025-03-04", none, none, some "2025-03-04"] ∧
      Wrote mixedLedger mixedProject "2025-03-04"
        { mixedLedger.data with entries := s'.data.entries } t' s' ∧
      ∃ v₃, s'.validateAll t' "2025-03-04" mixedValidator true = (t', s', v₃, .ok results) := by
  have hids : (mixedLedger.data.entries.map (·.id)).Nodup := by decide
  have hstates : mixedTouch.2.2.2.toOption.map (·.map (·.state)) =
      some [.valid, .drifted, .broken, .valid] := by
    decide +kernel
  have hdates : mixedTouch.2.1.data.entries.map (·.lastValidatedDate) =
      [some "2025-03-04", none, none, some "2025-03-04"] := by
    decide +kernel
  have hknown : ∀ e ∈ mixedLedger.data.entries,
      mixedValidator.known mixedTouch.1 e.file = mixedValidator.known mixedProject e.file ∧
      ∀ d ∈ e.dependencies, mixedValidator.known mixedTouch.1 d.targetFile =
        mixedValidator.known mixedProject d.targetFile := by
    decide +kernel
  rcases h : mixedTouch with ⟨t', s', v', r⟩
  rw [h] at hstates hdates hknown
  cases r with
  | error e => cases hstates
  | ok results =>
    replace hstates := Option.some.inj hstates
    obtain ⟨-, -, -, -, -, -, -, hwrote, -, hagain⟩ := touch_dates_valid_entries hids h
    have hundated : AnyUndated "2025-03-04" mixedLedger.data.entries results := by
      cases results with
      | nil => cases hstates
      | cons first rest =>
        have hvalid : first.state = .valid := (List.cons.inj hstates).1
        exact ⟨0, _, first, rfl, rfl, by rw [ValidationResult.isValid, hvalid]; rfl, by
          rw [Entry.IsDated]
          decide⟩
    exact ⟨t', s', v', results, rfl, hstates, hdates, hwrote hundated,
      hagain t' mixedValidator rfl hknown⟩

end Store

end NullAccess
