import NullAccess.Proofs.Report.Verdicts

/-!
# Reports in closed form

A report is put together by two loops that share the validator, the verdicts given so far and the
ids that covered a finding.  This file says what comes out of them.

The order in which entries are asked about is fixed: first the entries of the findings, then the
entries that cover no finding.  It settles the verdicts that count, and `assemble_eq_ok_iff` gives
the report as a function of the findings, the ledger and these verdicts.
-/

namespace NullAccess

/-- The finding with its report level. -/
def Finding.leveled (d : DefaultSeverity) (f : Finding) : Finding :=
  { f with level := f.levelFor d }

/-- The entry that covers a finding: the first one of its file, line and category. -/
def Ledger.covering? (l : Ledger) (f : Finding) : Option Entry :=
  l.find? f.file f.line (some f.category)

@[simp] theorem Ledger.covering?_leveled (l : Ledger) (d : DefaultSeverity) (f : Finding) :
    l.covering? (f.leveled d) = l.covering? f := rfl

theorem Ledger.mem_entries_of_covering? {l : Ledger} {f : Finding} {e : Entry}
    (h : l.covering? f = some e) : e ∈ l.entries :=
  List.mem_of_find?_eq_some h

/-- The findings of the files that could be read, in order, with their levels. -/
def FileResult.found (d : DefaultSeverity) (results : List FileResult) : List Finding :=
  (results.filter (·.error.isNone)).flatMap fun r => r.findings.map (·.leveled d)

/-- The files that could not be read, in order. -/
def FileResult.unread (results : List FileResult) : List UnreadFile :=
  results.filterMap fun r => r.error.map fun e => ⟨r.file, e⟩

namespace Merge

/-! ## Buckets -/

section

variable (l : Ledger) (rule : Entry → ValidationResult)

/-- The entries that cover findings, in order. -/
def coverers (fs : List Finding) : List Entry := fs.filterMap l.covering?

/-- The findings that no entry covers. -/
def newOf (fs : List Finding) : List Finding := fs.filter fun f => (l.covering? f).isNone

/-- The findings that a valid entry covers. -/
def whitelistedOf (fs : List Finding) : List WhitelistedFinding :=
  fs.filterMap fun f => (l.covering? f).bind fun e =>
    if (rule e).isValid then some ⟨f, e.id⟩ else none

/-- The findings that another entry covers. -/
def driftOf (fs : List Finding) : List DriftItem :=
  fs.filterMap fun f => (l.covering? f).bind fun e =>
    if (rule e).isValid then none else some (.of e (rule e) (some f))

/-- The entries that are not valid, without a finding. -/
def staleOf (es : List Entry) : List DriftItem :=
  (es.filter fun e => !(rule e).isValid).map fun e => .of e (rule e) none

/-- A merge with the buckets of further findings and files. -/
def extended (m : Merge) (fs : List Finding) (unread : List UnreadFile) (w : Validator)
    (vs : List (String × ValidationResult)) : Merge :=
  { validator := w, verdicts := vs,
    covered := (coverers l fs).reverse.map (·.id) ++ m.covered,
    new := m.new ++ newOf l fs,
    whitelisted := m.whitelisted ++ whitelistedOf l rule fs,
    drift := m.drift ++ driftOf l rule fs,
    errors := m.errors ++ unread }

end

variable {v : Validator} {t : Tree} {asked all : List Entry} {m : Merge} {e : Entry} {l : Ledger}
  {d : DefaultSeverity} {fs fs' : List Finding} {unread unread' : List UnreadFile}
  {result : Except Fault Merge}

@[simp] theorem coverers_append : coverers l (fs ++ fs') = coverers l fs ++ coverers l fs' :=
  List.filterMap_append

@[simp] theorem coverers_map_leveled :
    coverers l (fs.map (·.leveled d)) = coverers l fs := by
  simp [coverers, List.filterMap_map, Function.comp_def]

theorem extended_extended {rule : Entry → ValidationResult} {w w' : Validator}
    {vs vs' : List (String × ValidationResult)} :
    (m.extended l rule fs unread w vs).extended l rule fs' unread' w' vs' =
      m.extended l rule (fs ++ fs') (unread ++ unread') w' vs' := by
  simp [extended, newOf, whitelistedOf, driftOf, List.append_assoc]

/-! ## The loop over findings

`Extends` says how a stretch of the loop ends: with the buckets and the memory extended, or with a
fault because a verdict that counts for an entry of the stretch is not given. -/

/-- How the loop ends that starts with `m` after `asked` and goes over `fs` and `unread`. -/
def Extends (v : Validator) (t : Tree) (l : Ledger) (all asked : List Entry) (m : Merge)
    (fs : List Finding) (unread : List UnreadFile) : Except Fault Merge → Prop
  | .ok m' => (∀ e ∈ coverers l fs, Judged v t all e) ∧
      ∃ w vs, m' = m.extended l (ruling v t all) fs unread w vs ∧
        Remembers v t (asked ++ coverers l fs) w vs
  | .error _ => ∃ e ∈ coverers l fs, ¬ Judged v t all e

theorem Extends.andThen {m' : Merge} (h : Extends v t l all asked m fs unread (.ok m'))
    (h' : Extends v t l all (asked ++ coverers l fs) m' fs' unread' result) :
    Extends v t l all asked m (fs ++ fs') (unread ++ unread') result := by
  obtain ⟨hjudged, w, vs, rfl, -⟩ := h
  cases result with
  | ok m'' =>
    obtain ⟨hjudged', w', vs', rfl, hmemory⟩ := h'
    refine ⟨?_, w', vs', extended_extended, ?_⟩
    · intro e he
      rw [coverers_append, List.mem_append] at he
      exact he.elim (hjudged e) (hjudged' e)
    · rwa [coverers_append, ← List.append_assoc]
  | error fault =>
    obtain ⟨e, he, hnot⟩ := h'
    exact ⟨e, by rw [coverers_append]; exact List.mem_append_right _ he, hnot⟩

theorem Extends.andStop {fault : Fault} (h : Extends v t l all asked m fs unread (.error fault))
    (fs' : List Finding) (unread' : List UnreadFile) :
    Extends v t l all asked m (fs ++ fs') (unread ++ unread') (.error fault) := by
  obtain ⟨e, he, hnot⟩ := h
  exact ⟨e, by rw [coverers_append]; exact List.mem_append_left _ he, hnot⟩

theorem Extends.memory {m' : Merge} (h : Extends v t l all asked m fs unread (.ok m')) :
    Remembers v t (asked ++ coverers l fs) m'.validator m'.verdicts := by
  obtain ⟨-, w, vs, rfl, hmemory⟩ := h
  exact hmemory

theorem extends_refl (h : Remembers v t asked m.validator m.verdicts) :
    Extends v t l all asked m [] [] (.ok m) := by
  refine ⟨nofun, m.validator, m.verdicts, ?_, by simpa [coverers] using h⟩
  simp [extended, coverers, newOf, whitelistedOf, driftOf]

theorem addFinding_eq (m : Merge) (t : Tree) (l : Ledger) (d : DefaultSeverity) (f : Finding) :
    m.addFinding t l d f =
      match l.covering? f with
      | none => .ok { m with new := m.new ++ [f.leveled d] }
      | some e =>
        match Merge.verdict { m with covered := e.id :: m.covered } t e with
        | .error fault => .error fault
        | .ok (r, m') =>
          if r.isValid then .ok { m' with whitelisted := m'.whitelisted ++ [⟨f.leveled d, e.id⟩] }
          else .ok { m' with drift := m'.drift ++ [.of e r (some (f.leveled d))] } := rfl

theorem addFinding_extends (h : Remembers v t asked m.validator m.verdicts) (f : Finding)
    (hall : asked ++ coverers l [f] <+: all) :
    Extends v t l all asked m [f.leveled d] [] (m.addFinding t l d f) := by
  rw [addFinding_eq]
  cases hf : l.covering? f with
  | none =>
    refine ⟨by simp [coverers, hf], m.validator, m.verdicts, ?_, by simpa [coverers, hf] using h⟩
    simp [extended, coverers, newOf, whitelistedOf, driftOf, hf]
  | some e =>
    have hcoverers : coverers l [f] = [e] := by simp [coverers, hf]
    -- What is asked about later cannot speak for an entry that is asked about now.
    have hspoke : spokesman all e = spokesman asked e :=
      spokesman_of_prefix (hcoverers ▸ hall)
    cases hr : v.verdictOn t (spokesman asked e) with
    | error fault =>
      simp only [verdict_of_error (m := { m with covered := e.id :: m.covered }) h hr]
      refine ⟨e, by simp [coverers, hf], ?_⟩
      rintro ⟨r, hr'⟩
      rw [hspoke, hr] at hr'
      cases hr'
    | ok r =>
      obtain ⟨w, vs, hverdict, hmemory⟩ :=
        verdict_of_ok (m := { m with covered := e.id :: m.covered }) h hr
      have hjudged : v.verdictOn t (spokesman all e) = .ok r := hspoke ▸ hr
      have hrule := ruling_eq hjudged
      simp only [hverdict]
      have hjudged' : ∀ e' ∈ coverers l [f.leveled d], Judged v t all e' := by
        intro e' he'
        have : e' = e := by simpa [coverers, hf] using he'
        exact this ▸ ⟨r, hjudged⟩
      by_cases hvalid : r.isValid = true
      · rw [if_pos hvalid]
        refine ⟨hjudged', w, vs, ?_, by simpa [coverers, hf] using hmemory⟩
        simp [extended, coverers, newOf, whitelistedOf, driftOf, hf, hrule, hvalid]
      · rw [if_neg hvalid]
        refine ⟨hjudged', w, vs, ?_, by simpa [coverers, hf] using hmemory⟩
        simp [extended, coverers, newOf, whitelistedOf, driftOf, hf, hrule, hvalid]

theorem addFindings_extends (h : Remembers v t asked m.validator m.verdicts) (fs : List Finding)
    (hall : asked ++ coverers l fs <+: all) :
    Extends v t l all asked m (fs.map (·.leveled d)) [] (m.addFindings t l d fs) := by
  induction fs generalizing m asked with
  | nil => exact extends_refl h
  | cons f rest ih =>
    have hsplit : coverers l (f :: rest) = coverers l [f] ++ coverers l rest := by
      rw [← coverers_append]
      rfl
    rw [hsplit, ← List.append_assoc] at hall
    have hf := addFinding_extends (d := d) h f ((List.prefix_append _ _).trans hall)
    rw [addFindings]
    cases hm : m.addFinding t l d f with
    | error fault =>
      rw [hm] at hf
      exact hf.andStop (rest.map (·.leveled d)) []
    | ok m' =>
      rw [hm] at hf
      exact hf.andThen (ih hf.memory hall)

theorem addFiles_extends (h : Remembers v t asked m.validator m.verdicts)
    (results : List FileResult) (hall : asked ++ coverers l (FileResult.found d results) <+: all) :
    Extends v t l all asked m (FileResult.found d results) (FileResult.unread results)
      (m.addFiles t l d results) := by
  induction results generalizing m asked with
  | nil => exact extends_refl h
  | cons r rest ih =>
    rw [addFiles]
    cases herror : r.error with
    | some error =>
      have hfound : FileResult.found d (r :: rest) = FileResult.found d rest := by
        simp [FileResult.found, herror]
      have hunread : FileResult.unread (r :: rest) = ⟨r.file, error⟩ :: FileResult.unread rest := by
        simp [FileResult.unread, herror]
      have hstep : Extends v t l all asked m [] [⟨r.file, error⟩]
          (.ok { m with errors := m.errors ++ [⟨r.file, error⟩] }) := by
        refine ⟨nofun, m.validator, m.verdicts, ?_, by simpa [coverers] using h⟩
        simp [extended, coverers, newOf, whitelistedOf, driftOf]
      rw [hfound] at hall
      rw [hfound, hunread]
      exact hstep.andThen (ih hstep.memory (by simpa [coverers] using hall))
    | none =>
      have hfound : FileResult.found d (r :: rest) =
          r.findings.map (·.leveled d) ++ FileResult.found d rest := by
        simp [FileResult.found, herror]
      have hunread : FileResult.unread (r :: rest) = FileResult.unread rest := by
        simp [FileResult.unread, herror]
      rw [hfound, coverers_append, coverers_map_leveled, ← List.append_assoc] at hall
      rw [hfound, hunread]
      have hr := addFindings_extends (d := d) h r.findings ((List.prefix_append _ _).trans hall)
      cases hm : m.addFindings t l d r.findings with
      | error fault =>
        rw [hm] at hr
        exact hr.andStop (FileResult.found d rest) (FileResult.unread rest)
      | ok m' =>
        rw [hm] at hr
        exact hr.andThen (ih hr.memory (by rwa [coverers_map_leveled]))

/-! ## The loop over entries -/

/-- Whether the value in the place of an entry's file can be looked up among names. -/
def isNamed (e : Entry) : Bool :=
  match e.unfit? "file" with
  | some (.arr _) | some (.obj _) => false
  | _ => true

/-- Whether an entry is for one of some files. -/
def isFor (scanned : List String) (e : Entry) : Bool :=
  (e.unfit? "file").isNone && scanned.contains e.file

/-- The entries of scanned files whose ids covered no finding. -/
def remaining (scanned covered : List String) (es : List Entry) : List Entry :=
  es.filter fun e => !covered.contains e.id && isFor scanned e

theorem isScanned_eq (scanned : List String) (e : Entry) :
    isScanned scanned e = if isNamed e then .ok (isFor scanned e) else .error .notCountable := by
  unfold isScanned isNamed isFor
  cases e.unfit? "file" with
  | none => rfl
  | some j => cases j <;> rfl

/-- An entry that gets a verdict can be looked up. -/
theorem isNamed_of_verdictOn {r : ValidationResult} (h : v.verdictOn t e = .ok r) :
    isNamed e = true := by
  rw [isNamed, Validator.unfit?_file_of_verdictOn h]

variable {scanned : List String} {es es' : List Entry}

@[simp] theorem remaining_append {covered : List String} :
    remaining scanned covered (es ++ es') =
      remaining scanned covered es ++ remaining scanned covered es' :=
  List.filter_append _ _

/-- How the loop ends that starts with `m` after `asked` and goes over the entries `es`. -/
def Settles (v : Validator) (t : Tree) (scanned : List String) (all asked : List Entry) (m : Merge)
    (es : List Entry) : Except Fault Merge → Prop
  | .ok m' =>
    (∀ e ∈ es, m.covered.contains e.id = false → isNamed e = true) ∧
    (∀ e ∈ remaining scanned m.covered es, Judged v t all e) ∧
    ∃ w vs, m' = { m with
        validator := w, verdicts := vs,
        drift := m.drift ++ staleOf (ruling v t all) (remaining scanned m.covered es) } ∧
      Remembers v t (asked ++ remaining scanned m.covered es) w vs
  | .error _ =>
    (∃ e ∈ es, m.covered.contains e.id = false ∧ isNamed e = false) ∨
    ∃ e ∈ remaining scanned m.covered es, ¬ Judged v t all e

theorem Settles.andThen {m' : Merge} (h : Settles v t scanned all asked m es (.ok m'))
    (h' : Settles v t scanned all (asked ++ remaining scanned m.covered es) m' es' result) :
    Settles v t scanned all asked m (es ++ es') result := by
  obtain ⟨hnamed, hjudged, w, vs, rfl, -⟩ := h
  cases result with
  | ok m'' =>
    obtain ⟨hnamed', hjudged', w', vs', rfl, hmemory⟩ := h'
    refine ⟨?_, ?_, w', vs', ?_, ?_⟩
    · intro e he
      exact (List.mem_append.mp he).elim (hnamed e) (hnamed' e)
    · intro e he
      rw [remaining_append, List.mem_append] at he
      exact he.elim (hjudged e) (hjudged' e)
    · simp [staleOf, List.append_assoc]
    · rwa [remaining_append, ← List.append_assoc]
  | error fault =>
    rcases h' with ⟨e, he, hnot⟩ | ⟨e, he, hnot⟩
    · exact .inl ⟨e, List.mem_append_right _ he, hnot⟩
    · exact .inr ⟨e, by rw [remaining_append]; exact List.mem_append_right _ he, hnot⟩

theorem settles_of_not_remaining (h : Remembers v t asked m.validator m.verdicts)
    (hnamed : m.covered.contains e.id = false → isNamed e = true)
    (hnone : remaining scanned m.covered [e] = []) :
    Settles v t scanned all asked m [e] (.ok m) := by
  refine ⟨by simpa using hnamed, by simp [hnone], m.validator, m.verdicts, ?_, by simpa [hnone]⟩
  simp [hnone, staleOf]

theorem addEntry_settles (h : Remembers v t asked m.validator m.verdicts) (e : Entry)
    (hall : asked ++ remaining scanned m.covered [e] <+: all) :
    Settles v t scanned all asked m [e] (m.addEntry t scanned e) := by
  rw [addEntry, isScanned_eq]
  by_cases hcovered : m.covered.contains e.id = true
  · rw [if_pos hcovered]
    refine settles_of_not_remaining h (fun h' => ?_) ?_
    · rw [hcovered] at h'
      cases h'
    · rw [remaining, List.filter_singleton, hcovered]
      rfl
  · rw [if_neg hcovered]
    have huncovered : m.covered.contains e.id = false := by simpa using hcovered
    by_cases hnamed : isNamed e = true
    · by_cases hfor : isFor scanned e = true
      · have hremaining : remaining scanned m.covered [e] = [e] := by
          rw [remaining, List.filter_singleton, huncovered, hfor]
          rfl
        have hspoke : spokesman all e = spokesman asked e := spokesman_of_prefix (hremaining ▸ hall)
        simp only [hnamed, hfor, if_true]
        cases hr : v.verdictOn t (spokesman asked e) with
        | error fault =>
          simp only [verdict_of_error h hr]
          refine .inr ⟨e, by simp [hremaining], ?_⟩
          rintro ⟨r, hr'⟩
          rw [hspoke, hr] at hr'
          cases hr'
        | ok r =>
          obtain ⟨w, vs, hverdict, hmemory⟩ := verdict_of_ok h hr
          have hjudged : v.verdictOn t (spokesman all e) = .ok r := hspoke ▸ hr
          have hjudgedAll : ∀ e' ∈ remaining scanned m.covered [e], Judged v t all e' := by
            intro e' he'
            rw [hremaining, List.mem_singleton] at he'
            exact he' ▸ ⟨r, hjudged⟩
          simp only [hverdict]
          by_cases hvalid : r.isValid = true
          · rw [if_pos hvalid]
            refine ⟨by simp [hnamed], hjudgedAll, w, vs, ?_, by simpa [hremaining] using hmemory⟩
            simp [hremaining, staleOf, ruling_eq hjudged, hvalid]
          · rw [if_neg hvalid]
            refine ⟨by simp [hnamed], hjudgedAll, w, vs, ?_, by simpa [hremaining] using hmemory⟩
            simp [hremaining, staleOf, ruling_eq hjudged, hvalid]
      · have hfor' : isFor scanned e = false := by simpa using hfor
        simp only [hnamed, hfor', if_true]
        exact settles_of_not_remaining h (fun _ => hnamed) (by simp [remaining, hfor'])
    · simp only [hnamed, Bool.false_eq_true, if_false]
      exact .inl ⟨e, List.mem_singleton_self e, huncovered, by simpa using hnamed⟩

theorem addEntries_settles (h : Remembers v t asked m.validator m.verdicts) (es : List Entry)
    (hall : asked ++ remaining scanned m.covered es <+: all) :
    Settles v t scanned all asked m es (m.addEntries t scanned es) := by
  induction es generalizing m asked with
  | nil =>
    refine ⟨nofun, nofun, m.validator, m.verdicts, ?_, by simpa [remaining] using h⟩
    simp [remaining, staleOf]
  | cons e rest ih =>
    have hsplit : remaining scanned m.covered (e :: rest) =
        remaining scanned m.covered [e] ++ remaining scanned m.covered rest := by
      rw [← remaining_append]
      rfl
    rw [hsplit, ← List.append_assoc] at hall
    have he := addEntry_settles h e ((List.prefix_append _ _).trans hall)
    rw [addEntries]
    cases hm : m.addEntry t scanned e with
    | error fault =>
      rw [hm] at he
      rcases he with ⟨e', he', hnot⟩ | ⟨e', he', hnot⟩
      · exact .inl ⟨e', List.mem_append_left rest he', hnot⟩
      · exact .inr ⟨e', by rw [hsplit]; exact List.mem_append_left _ he', hnot⟩
    | ok m' =>
      rw [hm] at he
      have hcopy := he
      obtain ⟨-, -, w, vs, rfl, hmemory⟩ := hcopy
      exact he.andThen (ih hmemory hall)

end Merge

namespace ScanReport

open Merge

section

variable (results : List FileResult) (l : Ledger) (t : Tree) (v : Validator) (d : DefaultSeverity)

/-- The names of the scanned files, each once. -/
def scannedNames : List String := (results.map (·.file)).eraseDups

/-- The entries of scanned files that cover no finding. -/
def unmatched : List Entry :=
  remaining (scannedNames results) ((coverers l (FileResult.found d results)).map (·.id)) l.entries

/-- The entries that are asked about, in order. -/
def asked : List Entry := coverers l (FileResult.found d results) ++ unmatched results l d

/-- Whether there is a report: every entry that covers no finding can be looked up among the scanned
files, and every verdict that counts is given. -/
structure Reportable : Prop where
  named : ∀ e ∈ l.entries,
    e.id ∉ (coverers l (FileResult.found d results)).map (·.id) → isNamed e = true
  judged : ∀ e ∈ asked results l d, Judged v t (asked results l d) e

/-- The drift of a report before the fixes are added. -/
def driftItems : List DriftItem :=
  driftOf l (ruling v t (asked results l d)) (FileResult.found d results) ++
    staleOf (ruling v t (asked results l d)) (unmatched results l d)

/-- The report of a scan, from the findings, the ledger and the verdicts. -/
def merged (target today time : String) : ScanReport :=
  let new := (newOf l (FileResult.found d results)).map Finding.withFix
  let whitelisted :=
    whitelistedOf l (ruling v t (asked results l d)) (FileResult.found d results)
  let drift := (driftItems results l t v d).map fun i =>
    { i with finding := i.finding.map Finding.withFix }
  { scanTarget := target, scanTimestamp := timestamp today time, defaultSeverity := d.text, new,
    whitelisted, drift, errors := FileResult.unread results,
    summary :=
      { filesScanned := (scannedNames results).length, new := new.length,
        newErrors := (new.filter (·.level == "error")).length,
        whitelisted := whitelisted.length, drift := drift.length,
        fileErrors := (FileResult.unread results).length } }

end

variable {results : List FileResult} {l : Ledger} {t : Tree} {v : Validator} {d : DefaultSeverity}
  {target today time : String}

theorem mem_entries_of_mem_asked {e : Entry} (he : e ∈ asked results l d) : e ∈ l.entries := by
  rcases List.mem_append.mp he with hcoverer | hunmatched
  · obtain ⟨f, -, hf⟩ := List.mem_filterMap.mp hcoverer
    exact Ledger.mem_entries_of_covering? hf
  · exact List.mem_of_mem_filter hunmatched

/-- How the two loops end: with the report, or with a fault because there is none. -/
theorem assemble_cases (results : List FileResult) (l : Ledger) (t : Tree) (v : Validator)
    (d : DefaultSeverity) (target today time : String) :
    (Reportable results l t v d ∧
      assemble results l t v d target today time = .ok (merged results l t v d target today time)) ∨
    (¬ Reportable results l t v d ∧
      ∃ f, assemble results l t v d target today time = .error f) := by
  have hfiles : Extends v t l (asked results l d) [] { validator := v }
      (FileResult.found d results) (FileResult.unread results)
      (Merge.addFiles t l d { validator := v } results) :=
    addFiles_extends (remembers_nil v t) results (List.prefix_append _ _)
  cases hm : Merge.addFiles t l d { validator := v } results with
  | error f =>
    rw [hm] at hfiles
    obtain ⟨e, he, hnot⟩ := hfiles
    refine .inr ⟨fun h => hnot (h.judged e (List.mem_append_left _ he)), f, ?_⟩
    simp only [assemble, hm]
    rfl
  | ok m =>
    rw [hm] at hfiles
    have hmemory := hfiles.memory
    obtain ⟨hjudged, w, vs, hbuckets, -⟩ := hfiles
    -- The second loop goes by the ids that the first one left, in whatever order.
    have hcovered : ∀ e : Entry, m.covered.contains e.id = false ↔
        e.id ∉ (coverers l (FileResult.found d results)).map (·.id) := by
      intro e
      simp [hbuckets, extended]
    have hremaining : remaining (scannedNames results) m.covered l.entries =
        unmatched results l d := by
      refine List.filter_congr fun e _ => ?_
      rw [Bool.eq_iff_iff]
      simp [hbuckets, extended]
    have hentries : Settles v t (scannedNames results) (asked results l d)
        ([] ++ coverers l (FileResult.found d results)) m l.entries
        (m.addEntries t (scannedNames results) l.entries) :=
      addEntries_settles hmemory l.entries (by rw [hremaining]; exact List.prefix_rfl)
    cases hm' : m.addEntries t (scannedNames results) l.entries with
    | error f =>
      rw [hm'] at hentries
      refine .inr ⟨fun h => ?_, f, ?_⟩
      · rcases hentries with ⟨e, he, huncovered, hnot⟩ | ⟨e, he, hnot⟩
        · rw [h.named e he ((hcovered e).mp huncovered)] at hnot
          cases hnot
        · rw [hremaining] at he
          exact hnot (h.judged e (List.mem_append_right _ he))
      · simp only [assemble, hm]
        show (m.addEntries t (scannedNames results) l.entries >>= _) = _
        rw [hm']
        rfl
    | ok m' =>
      rw [hm'] at hentries
      obtain ⟨hnamed, hjudged', w', vs', hbuckets', -⟩ := hentries
      rw [hremaining] at hjudged' hbuckets'
      refine .inl ⟨⟨fun e he hid => hnamed e he ((hcovered e).mpr hid), ?_⟩, ?_⟩
      · intro e he
        exact (List.mem_append.mp he).elim (hjudged e) (hjudged' e)
      · simp only [assemble, hm]
        show (m.addEntries t (scannedNames results) l.entries >>= _) = _
        rw [hm', hbuckets', hbuckets]
        simp [bind, Except.bind, pure, Except.pure, merged, driftItems, extended, scannedNames]

/-- There is a report exactly when it can be made, and then it is `merged`. -/
theorem assemble_eq_ok_iff {r : ScanReport} :
    assemble results l t v d target today time = .ok r ↔
      Reportable results l t v d ∧ merged results l t v d target today time = r := by
  rcases assemble_cases results l t v d target today time with ⟨h, heq⟩ | ⟨h, f, heq⟩
  · rw [heq, Except.ok.injEq]
    exact ⟨fun hr => ⟨h, hr⟩, fun hr => hr.2⟩
  · rw [heq]
    exact ⟨nofun, fun hr => absurd hr.1 h⟩

end ScanReport

end NullAccess
