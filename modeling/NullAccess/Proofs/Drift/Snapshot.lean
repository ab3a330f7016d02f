import NullAccess.Proofs.Drift.Stages
import NullAccess.Proofs.Ledger.Run
import NullAccess.Proofs.Report.Approval

/-!
# Snapshots, taken and checked

An approval takes snapshots of a line and of functions; a validation compares snapshots with the
files.  `Current` says that the snapshots of an entry are what the files hold.  An entry is current
when it comes out of an approval, new or renewed (`current_of_approve`, `current_of_reapprove`), and
a current entry passes every stage of a check other than that of the markers above functions
(`Current.verdict`).  `approved_entry_waits_for_markers` puts the two together, with the ledger
written in between.
-/

namespace NullAccess

namespace Validator

variable {read read' : String → Except Cause (List Line)} {e : Entry} {d : Dependency}
  {lines : List Line} {enforce : Bool}

/-! ## Entries that are current -/

structure Current (read : String → Except Cause (List Line)) (e : Entry) : Prop where
  fit : ∀ name ∈ ["file", "line", "approved_code_snapshot"], e.unfit? name = none
  code : ∃ lines, read e.file = .ok lines ∧
    Source.codeAt? lines e.line = some e.approvedCodeSnapshot
  bodies : ∀ d ∈ e.dependencies, ∃ lines, read d.targetFile = .ok lines ∧
    Source.functionBody? lines d.targetLine d.targetFunction = some d.codeSnapshot

theorem Current.congr (h : Current read e)
    (hsame : ∀ name ∈ e.file :: e.dependencies.map (·.targetFile), read' name = read name) :
    Current read' e := by
  refine ⟨h.fit, ?_, fun d hd => ?_⟩
  · rw [hsame e.file List.mem_cons_self]
    exact h.code
  · rw [hsame d.targetFile (List.mem_cons_of_mem _ (List.mem_map_of_mem hd))]
    exact h.bodies d hd

theorem lineKept_of_codeAt? (hread : read e.file = .ok lines)
    (hcode : Source.codeAt? lines e.line = some e.approvedCodeSnapshot) :
    lineKept read e = true := by
  by_cases hwithin : 1 ≤ e.line ∧ e.line ≤ lines.length
  · obtain ⟨raw, hraw, htrimmed⟩ := codeAt?_of_within hwithin
    rw [htrimmed, Option.some_inj] at hcode
    simp only [lineKept, hread, hraw, ← hcode, String.toList_ofList,
      Text.trim_trim, Option.map_some, beq_self_eq_true, Bool.and_true, decide_eq_true_eq]
    exact hwithin
  · rw [codeAt?_of_not_within hwithin] at hcode
    cases hcode

theorem bodyKept_of_functionBody? (hread : read d.targetFile = .ok lines)
    (hbody : Source.functionBody? lines d.targetLine d.targetFunction = some d.codeSnapshot) :
    bodyKept read d = true := by
  have hwithin : 1 ≤ d.targetLine ∧ d.targetLine ≤ lines.length :=
    functionBody?_isSome.mp (by rw [hbody]; rfl)
  simp [bodyKept, hread, hwithin, hbody]

theorem Current.declaredWithin (h : Current read e) : DeclaredWithin read e := by
  intro d hd lines hlines
  obtain ⟨found, hfound, hbody⟩ := h.bodies d hd
  obtain rfl : lines = found := by
    rw [hlines] at hfound
    exact Except.ok.inj hfound
  have hwithin : 1 ≤ d.targetLine ∧ d.targetLine ≤ lines.length :=
    functionBody?_isSome.mp (by rw [hbody]; rfl)
  omega

/-! ## The verdict on a current entry -/

theorem numbered_of_line (h : e.unfit? "line" = none) : numbered e = e := by
  rw [numbered, h]
  rfl

theorem not_stops (hfit : ∀ name ∈ ["file", "line", "approved_code_snapshot"], e.unfit? name = none)
    (hread : read e.file = .ok lines) (hmarked : enforce = true → consumerFound read e = true)
    (hdeps : ∀ d ∈ e.dependencies, ∃ lines, read d.targetFile = .ok lines) :
    ¬ Stops read enforce e := by
  have hfault : unfitFault? e (read e.file) = none := by
    simp [unfitFault?, hread, hfit]
  rintro (hsome | hnul | ⟨-, henforce, found, hfound, hnumeral⟩ | ⟨-, -, d, hd, hnul⟩)
  · rw [hfault] at hsome
    cases hsome
  · rw [hread] at hnul
    cases hnul
  · have hconsumer := hmarked henforce
    simp [consumerFound, hfound, hnumeral] at hconsumer
  · obtain ⟨found, hfound⟩ := hdeps d hd
    rw [hfound] at hnul
    cases hnul

/-- The reasons for which a function that can be found may lack its marker. -/
theorem providerReason_of_ok (hread : read d.targetFile = .ok lines) :
    providerReason read d = .missingProvider ∨ providerReason read d = .mismatchedProvider := by
  simp only [providerReason, hread]
  split
  · exact .inl rfl
  · split
    · exact .inr rfl
    · exact .inl rfl

theorem firstFailing_eq_provider (hothers : ∀ s, s ≠ .provider → passes read enforce e s = true)
    (hprovider : passes read enforce e .provider = false) :
    firstFailing read enforce e = some .provider := by
  simp [firstFailing, Stage.all, hothers, hprovider]

theorem Reports.of_provider {r : ValidationResult} (h : Reports read e r (some .provider)) :
    r.state = .broken ∧
      ∃ d ∈ e.dependencies, providerLists read e.id d = false ∧
        r.reason = (providerReason read d).text := by
  obtain ⟨hstate, hreason, -⟩ := h
  refine ⟨hstate, ?_⟩
  rw [failures, List.head?_map, Option.map_map, Option.map_eq_some_iff] at hreason
  obtain ⟨d, hd, hreason⟩ := hreason
  obtain ⟨hmem, hlists⟩ := List.mem_filter.mp (List.mem_of_head? hd)
  exact ⟨d, hmem, by simpa using hlists, hreason.symm⟩

/-- The markers of functions decide on a current entry, with a marker of its own where that is
enforced. -/
theorem Current.verdict (h : Current read e)
    (hmarked : enforce = true → consumerFound read e = true) :
    ∃ r, judge read enforce e = .ok r ∧
      (r.state = .valid ↔ ∀ d ∈ e.dependencies, providerLists read e.id d = true) ∧
      (r.state ≠ .valid → r.state = .broken ∧
        (r.reason = DriftReason.missingProvider.text ∨
          r.reason = DriftReason.mismatchedProvider.text)) := by
  obtain ⟨lines, hread, hcode⟩ := h.code
  have hdeps : ∀ d ∈ e.dependencies, ∃ lines, read d.targetFile = .ok lines := by
    intro d hd
    obtain ⟨found, hfound, -⟩ := h.bodies d hd
    exact ⟨found, hfound⟩
  obtain ⟨r, hr, -, hreports⟩ := judge_of_not_stops (numbered_of_line (h.fit "line" (by simp)))
    h.declaredWithin (not_stops h.fit hread hmarked hdeps)
  -- What was taken is what is read again, so only the markers are left to fail.
  have hothers : ∀ s, s ≠ .provider → passes read enforce e s = true := by
    intro s hs
    cases s with
    | file => simp [passes, hread, Except.isOk, Except.toBool]
    | line => exact lineKept_of_codeAt? hread hcode
    | consumer => cases enforce <;> simp [passes, hmarked]
    | provider => exact absurd rfl hs
    | body =>
      refine List.all_eq_true.mpr fun d hd => ?_
      obtain ⟨found, hfound, hbody⟩ := h.bodies d hd
      exact bodyKept_of_functionBody? hfound hbody
  have hvalid : r.state = .valid ↔ passes read enforce e .provider = true := by
    rw [state_eq_valid_iff hreports]
    refine ⟨fun hall => hall .provider, fun hprovider s => ?_⟩
    by_cases hs : s = .provider
    · rw [hs]
      exact hprovider
    · exact hothers s hs
  refine ⟨r, hr, hvalid.trans List.all_eq_true, fun hne => ?_⟩
  rw [firstFailing_eq_provider hothers (by simpa using mt hvalid.mpr hne)] at hreports
  obtain ⟨hstate, d, hd, -, hreason⟩ := hreports.of_provider
  obtain ⟨found, hfound⟩ := hdeps d hd
  refine ⟨hstate, ?_⟩
  rw [hreason]
  rcases providerReason_of_ok hfound with hmissing | hmismatched
  · exact .inl (by rw [hmissing])
  · exact .inr (by rw [hmismatched])

end Validator

/-! ## Values that fit -/

/-- A change to a value that fits leaves none in its field that does not, and other fields as they
were. -/
theorem Store.Change.unfit?_apply {c : Store.Change} (hfit : c.isFit = true)
    (hlocked : c.locked? = none) (e : Entry) (name : String) :
    (c.apply e).unfit? name = if name = c.fieldName then none else e.unfit? name := by
  rw [Entry.unfit?, unfit_apply_eq hfit hlocked, keptUnfit, Json.field?_filter_ne, Entry.unfit?]

/-! ## Taking snapshots -/

namespace Approval

open Store Validator

variable {s s' : Store} {t t' : Tree} {today id : String} {root : Path} {entry e : Entry}

theorem fresh_of_ok {file : String} {lines : List Line}
    (h : t.sourceLines (pathOf root file) = .ok lines) : fresh t root file = .ok lines := by
  unfold fresh
  rw [h]

theorem snapshot_eq_ok {file : String} {ref : DependencyRef} {d : Dependency}
    (h : snapshot t root file ref = .ok d) :
    (d.targetFile = (ref.file.filter (!·.isEmpty)).getD file ∧ d.targetFunction = ref.function ∧
      d.targetLine = ref.line) ∧
    ∃ lines, fresh t root d.targetFile = .ok lines ∧
      Source.functionBody? lines d.targetLine d.targetFunction = some d.codeSnapshot := by
  unfold snapshot readLines at h
  dsimp only at h
  generalize (ref.file.filter (!·.isEmpty)).getD file = target at h ⊢
  cases hlines : t.sourceLines (pathOf root target) with
  | error err =>
    rw [hlines] at h
    cases h
  | ok lines =>
    rw [hlines] at h
    dsimp only [bind, Except.bind] at h
    cases hbody : Source.functionBody? lines ref.line ref.function with
    | none =>
      rw [hbody] at h
      cases h
    | some body =>
      rw [hbody] at h
      cases h
      exact ⟨⟨rfl, rfl, rfl⟩, lines, fresh_of_ok hlines, hbody⟩

theorem snapshots_eq_ok {file : String} {refs : List DependencyRef} {ds : List Dependency}
    (h : snapshots t root file refs = .ok ds) :
    List.Forall₂ (fun ref d => snapshot t root file ref = .ok d) refs ds := by
  induction refs generalizing ds with
  | nil =>
    cases h
    exact .nil
  | cons ref rest ih =>
    unfold snapshots at h
    cases hfirst : snapshot t root file ref with
    | error err =>
      rw [hfirst] at h
      cases h
    | ok d =>
      cases hrest : snapshots t root file rest with
      | error err =>
        rw [hfirst, hrest] at h
        cases h
      | ok more =>
        rw [hfirst, hrest] at h
        cases h
        exact .cons hfirst (ih hrest)

theorem bodies_of_snapshots {file : String} {refs : List DependencyRef} {ds : List Dependency}
    (h : snapshots t root file refs = .ok ds) :
    ∀ d ∈ ds, ∃ lines, fresh t root d.targetFile = .ok lines ∧
      Source.functionBody? lines d.targetLine d.targetFunction = some d.codeSnapshot := by
  have htaken := snapshots_eq_ok h
  clear h
  induction htaken with
  | nil => exact List.forall_mem_nil _
  | cons hfirst _ ih => exact List.forall_mem_cons.mpr ⟨(snapshot_eq_ok hfirst).2, ih⟩

/-! ## New approvals -/

theorem current_of_entryFor {r : Request} (h : entryFor t root today r = .ok entry) :
    Current (fresh t root) entry := by
  obtain ⟨code, dependencies, hcode, hsnapshots, rfl⟩ := entryFor_eq_ok h
  obtain ⟨lines, hlines, hcodeAt⟩ := approvedCode_eq_ok hcode
  exact ⟨fun _ _ => rfl, ⟨lines, fresh_of_ok hlines, hcodeAt⟩, bodies_of_snapshots hsnapshots⟩

theorem unfit_of_approve {r : Request} (h : approve s t today root r = ⟨t', s', .ok entry⟩) :
    entry.unfit = [] := by
  obtain ⟨given, id, hgiven, rfl, -⟩ := approve_eq_ok h
  have hunfit := Operation.unfit_of_entryFor hgiven
  exact hunfit

theorem current_of_approve {r : Request} (h : approve s t today root r = ⟨t', s', .ok entry⟩) :
    Current (fresh t root) entry := by
  obtain ⟨given, id, hgiven, rfl, -⟩ := approve_eq_ok h
  have hcurrent := current_of_entryFor hgiven
  exact ⟨hcurrent.fit, hcurrent.code, hcurrent.bodies⟩

/-! ## Renewed approvals -/

/-- The function that a dependency names. -/
def refOf (d : Dependency) : DependencyRef :=
  { function := d.targetFunction, line := d.targetLine, file := some d.targetFile }

theorem reapprove_eq_ok (h : reapprove s t today root id = ⟨t', s', .ok entry⟩) :
    ∃ e code dependencies, s.data.entry? id = some e ∧ currentCode t root e = .ok code ∧
      snapshots t root e.file (e.dependencies.map refOf) = .ok dependencies ∧
      entry = [.approvedCodeSnapshot code, .dependencies dependencies].foldl Change.apply e ∧
      Wrote s t today (Edit.apply s.data (.replace id entry)) t' s' := by
  unfold reapprove at h
  split at h
  · cases h
  · rename_i e he
    dsimp only at h
    split at h
    · cases h
    · rename_i code hcode
      split at h
      · cases h
      · rename_i dependencies hsnapshots
        simp only [update, he, List.findSome?_cons, List.findSome?_nil, Change.locked?] at h
        obtain ⟨hentry, hwrote⟩ := commit_eq_ok_iff.mp h
        subst hentry
        exact ⟨e, code, dependencies, he, hcode, hsnapshots, rfl, hwrote⟩

theorem currentCode_eq_ok {code : String} (h : currentCode t root e = .ok code) :
    e.unfit? "file" = none ∧ e.unfit? "line" = none ∧
      approvedCode t root e.file e.line = .ok code := by
  unfold currentCode at h
  split at h
  · cases h
  · rename_i hfile
    split at h
    · cases hlines : readLines t root e.file with
      | error err =>
        rw [hlines] at h
        cases h
      | ok lines =>
        rw [hlines] at h
        cases h
    · rename_i hline
      exact ⟨by simpa using hfile, by simpa using hline, h⟩

theorem current_of_reapprove (h : reapprove s t today root id = ⟨t', s', .ok entry⟩) :
    Current (fresh t root) entry := by
  obtain ⟨e, code, dependencies, -, hcode, hsnapshots, rfl, -⟩ := reapprove_eq_ok h
  obtain ⟨hfile, hline, happroved⟩ := currentCode_eq_ok hcode
  obtain ⟨lines, hlines, hcodeAt⟩ := approvedCode_eq_ok happroved
  refine ⟨?_, ⟨lines, fresh_of_ok hlines, hcodeAt⟩, bodies_of_snapshots hsnapshots⟩
  intro name hname
  rw [List.foldl_cons, List.foldl_cons, List.foldl_nil, Change.unfit?_apply rfl rfl,
    Change.unfit?_apply rfl rfl]
  -- File and line were fit before, or there would be no code; the snapshot is fit from now on.
  simp only [List.mem_cons, List.not_mem_nil, or_false] at hname
  rcases hname with rfl | rfl | rfl
  · simp [Change.fieldName, hfile]
  · simp [Change.fieldName, hline]
  · simp [Change.fieldName]

/-- The entry without its snapshots, and without what stands in their places. -/
def withoutSnapshots (e : Entry) : Entry :=
  { e with
    approvedCodeSnapshot := ""
    dependencies := e.dependencies.map fun d => { d with codeSnapshot := "" }
    unfit := e.unfit.filter fun v => v.1 != "approved_code_snapshot" && v.1 != "dependencies" }

theorem names_of_snapshots {file : String} {ds taken : List Dependency}
    (hnames : ∀ d ∈ ds, d.targetFile ≠ "")
    (h : snapshots t root file (ds.map refOf) = .ok taken) :
    taken.map (fun d => { d with codeSnapshot := "" }) =
      ds.map fun d => { d with codeSnapshot := "" } := by
  have htaken := List.forall₂_map_left_iff.mp (snapshots_eq_ok h)
  clear h
  induction htaken with
  | nil => rfl
  | @cons d d' rest rest' hfirst _ ih =>
    obtain ⟨hname, hrest⟩ := List.forall_mem_cons.mp hnames
    obtain ⟨⟨hfile, hfunction, hline⟩, -⟩ := snapshot_eq_ok hfirst
    have htarget : d'.targetFile = d.targetFile := by
      rw [hfile]
      simp [refOf, Option.filter_some, hname]
    rw [List.map_cons, List.map_cons, ih hrest, htarget, hfunction, hline]
    rfl

theorem withoutSnapshots_of_reapprove (h : reapprove s t today root id = ⟨t', s', .ok entry⟩)
    (he : s.data.entry? id = some e) (hnames : ∀ d ∈ e.dependencies, d.targetFile ≠ "") :
    withoutSnapshots entry = withoutSnapshots e := by
  obtain ⟨e', code, dependencies, he', -, hsnapshots, rfl, -⟩ := reapprove_eq_ok h
  obtain rfl : e = e' := by
    rw [he] at he'
    exact Option.some_inj.mp he'
  have hdependencies := names_of_snapshots hnames hsnapshots
  simp only [withoutSnapshots, List.foldl_cons, List.foldl_nil, Change.apply, Change.keptUnfit,
    Change.fieldName, List.filter_filter, hdependencies]
  congr 2
  funext v
  cases v.1 != "approved_code_snapshot" <;> cases v.1 != "dependencies" <;> rfl

/-! ## Approving, then validating -/

/-- The ledger holds an entry, also when it is read back, and a validator that has read nothing yet
finds fault with the entry only for want of markers above functions.  A ledger is read back as it is
if its values fit their fields, as they do in every ledger that was read. -/
structure Settled (s : Store) (root : Path) (t' : Tree) (s' : Store) (entry : Entry) : Prop where
  held : s'.data.entry? entry.id = some entry
  reloaded : s.data.WellKept → ∀ day, ∃ again, load t' s.path day = .ok (again, []) ∧
    again.data.entry? entry.id = some entry
  verdict : ∃ r, verdictOn { root } t' entry = .ok r ∧
    (r.state = .valid ↔
      ∀ d ∈ entry.dependencies, providerLists (fresh t' root) entry.id d = true) ∧
    (r.state ≠ .valid → r.state = .broken ∧
      (r.reason = DriftReason.missingProvider.text ∨
        r.reason = DriftReason.mismatchedProvider.text))

theorem settled_of_wrote {data : Ledger} (hwrote : Wrote s t today data t' s')
    (hdata : s.data.WellKept → data.WellKept) (hheld : data.entry? entry.id = some entry)
    (hspares : Spares t root s.path (entry.file :: entry.dependencies.map (·.targetFile)))
    (hcurrent : Current (fresh t root) entry) : Settled s root t' s' entry := by
  have hentry : s'.data.entry? entry.id = some entry := by
    rw [hwrote.store]
    exact hheld
  refine ⟨hentry, fun hs day => ?_, ?_⟩
  · obtain ⟨l, hload, hagrees, -⟩ := saved_of_wrote hwrote (hdata hs) day
    have hpath : s'.path = s.path := by rw [hwrote.store]
    rw [hpath] at hload
    refine ⟨_, hload, ?_⟩
    unfold Ledger.entry?
    rw [hagrees.entries]
    exact hentry
  · have hsame : ∀ name ∈ entry.file :: entry.dependencies.map (·.targetFile),
        fresh t' root name = fresh t root name := by
      intro name hname
      unfold fresh
      rw [hspares.sourceLines (replaceFile_keeps hwrote.replaced) hname]
    rw [verdictOn, validate_fst, known_of_cache_eq_nil rfl]
    exact (hcurrent.congr hsame).verdict fun h => absurd h Bool.false_ne_true

theorem settled_of_approve {r : Request} (h : approve s t today root r = ⟨t', s', .ok entry⟩)
    (hspares : Spares t root s.path (entry.file :: entry.dependencies.map (·.targetFile))) :
    Settled s root t' s' entry := by
  obtain ⟨-, -, -, -, hfresh, -, hwrote⟩ := approve_eq_ok h
  have hfit : (Edit.append entry).Fits := unfit_of_approve h
  exact settled_of_wrote hwrote (fun hs => hs.apply hfit) (Ledger.entry?_append rfl hfresh) hspares
    (current_of_approve h)

theorem settled_of_reapprove (h : reapprove s t today root id = ⟨t', s', .ok entry⟩)
    (hspares : Spares t root s.path (entry.file :: entry.dependencies.map (·.targetFile))) :
    Settled s root t' s' entry := by
  obtain ⟨e, code, dependencies, he, -, -, hentry, hwrote⟩ := reapprove_eq_ok h
  obtain ⟨before, after, hentries, rfl, hbefore⟩ := Ledger.exists_of_entry? he
  have hid : entry.id = e.id := by
    rw [hentry]
    rfl
  have hheld : Ledger.entry? (Edit.apply s.data (.replace e.id entry)) entry.id = some entry := by
    have hnone : before.find? (·.id == e.id) = none := by simpa using hbefore
    rw [hid, Ledger.entry?, Edit.apply, hentries, Ledger.modifyEntry_append rfl hbefore,
      List.find?_append, hnone, Option.none_or, List.find?_cons_of_pos (by simp [hid])]
  refine settled_of_wrote hwrote (fun hs => hs.apply ?_) hheld hspares (current_of_reapprove h)
  rw [hentry]
  exact unfit_foldl_apply (hs.fit e (List.mem_of_find?_eq_some he)) (by simp [Change.isFit])

/-- A new or a renewed approval leaves an entry that is valid if the marker above each function
lists the entry, and otherwise broken for want of such a marker.  The ledger's own file, its
neighbour and the directories made for them are not among the files that the entry names.  A renewed
approval changes the snapshots and nothing else, where each function is named with its file. -/
theorem approved_entry_waits_for_markers
    (hspares : Spares t root s.path (entry.file :: entry.dependencies.map (·.targetFile))) :
    (∀ r, approve s t today root r = ⟨t', s', .ok entry⟩ → Settled s root t' s' entry) ∧
    ∀ id e, s.data.entry? id = some e → (∀ d ∈ e.dependencies, d.targetFile ≠ "") →
      reapprove s t today root id = ⟨t', s', .ok entry⟩ →
      Settled s root t' s' entry ∧ withoutSnapshots entry = withoutSnapshots e := by
  refine ⟨fun r h => settled_of_approve h hspares, fun id e he hnames h => ⟨?_, ?_⟩⟩
  · exact settled_of_reapprove h hspares
  · exact withoutSnapshots_of_reapprove h he hnames

/-- A project with a function that is marked for an entry. -/
def markedTree : Tree :=
  ⟨[(["p"], .dir), (["p", "a.js"], .file " x.y;".toUTF8),
    (["p", "b.js"], .file "// @validation-dependency n-1\nfunction load() \x7b \x7d".toUTF8)]⟩

/-- An entry with snapshots from before the project was changed. -/
def staleEntry : Entry :=
  { id := "n-1", file := "a.js", line := 1, approvedCodeSnapshot := "x.z;", reason := "checked",
    approvedDate := "2025-03-04",
    dependencies :=
      [{ targetFile := "b.js", targetFunction := "load", targetLine := 2, codeSnapshot := "" }] }

def staleStore : Store :=
  { path := { anchor := .root, parts := ["p", "l.json"] },
    data := { lastUpdated := "2025-03-04", entries := [staleEntry] } }

def renewal : Outcome Entry := reapprove staleStore markedTree "2025-03-05" sampleRoot "n-1"

theorem approved_entry_waits_for_markers_sample :
    ∃ t' s' entry, renewal = ⟨t', s', .ok entry⟩ ∧
      entry.approvedCodeSnapshot = "x.y;" ∧ withoutSnapshots entry = withoutSnapshots staleEntry ∧
      ∃ r, verdictOn { root := sampleRoot } t' entry = .ok r ∧ r.state = .valid := by
  have hdone : renewal.result.toOption.map
      (fun e => (e.file :: e.dependencies.map (·.targetFile), e.approvedCodeSnapshot)) =
        some (["a.js", "b.js"], "x.y;") := by
    decide +kernel
  have hmarked : renewal.result.toOption.all (fun e =>
      e.dependencies.all (providerLists (fresh renewal.tree sampleRoot) e.id)) = true := by
    decide +kernel
  have hspares : Spares markedTree sampleRoot staleStore.path ["a.js", "b.js"] := by
    unfold Spares
    decide +kernel
  rcases hrenewal : renewal with ⟨t', s', e | entry⟩
  · rw [hrenewal] at hdone
    cases hdone
  · rw [hrenewal] at hdone hmarked
    obtain ⟨hnames, hcode⟩ := Prod.mk.inj (Option.some_inj.mp hdone)
    rw [← hnames] at hspares
    obtain ⟨hsettled, hsame⟩ := (approved_entry_waits_for_markers hspares).2 "n-1" staleEntry rfl
      (by decide) hrenewal
    obtain ⟨r, hr, hvalid, -⟩ := hsettled.verdict
    exact ⟨t', s', entry, rfl, hcode, hsame, r, hr, hvalid.mpr (List.all_eq_true.mp hmarked)⟩

end Approval

end NullAccess
