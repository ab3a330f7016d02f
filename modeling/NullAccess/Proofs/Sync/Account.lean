import NullAccess.Proofs.Sync.Again

/-!
# What a walk accounts for

A walk that returns has one event for each item it came upon, and an entry that it added says what
its marker says (`Honours`).  A walk that does not return was ended by a ledger that cannot be
written, or cut short: by a file (`CutAt`) or by a marked line (`Halts`).
-/

namespace NullAccess.Approval

open Store Validator

variable {s s' : Store} {t t' : Tree} {today : String} {root : Path} {file : String} {line : Int}
  {m : ConsumerMarker} {item : Item} {event : Event} {events : List Event} {l : Ledger}
  {e : LedgerError}

/-! ## Entries that say what their markers say -/

structure Honours (root : Path) (t : Tree) (l : Ledger) (file : String) (line : Int)
    (m : ConsumerMarker) (entry : Entry) : Prop where
  held : l.entry? entry.id = some entry
  file_eq : entry.file = file
  line_eq : entry.line = line
  reason_eq : m.reason = some entry.reason
  category_eq : m.category = some entry.category
  dependencies_eq : List.Forall₂ (fun ref d => d.targetFile = targetOf file ref ∧
    d.targetFunction = ref.function ∧ d.targetLine = ref.line) m.dependencies entry.dependencies
  id_eq : ∀ id, m.whitelistId = some id → id ≠ "" → entry.id = id
  verdict : ∃ r, verdictOn { root, enforce := true } t entry = .ok r ∧
    (r.state = .valid ↔
      ∀ d ∈ entry.dependencies, providerLists (fresh t root) entry.id d = true) ∧
    (r.state ≠ .valid → r.state = .broken ∧
      (r.reason = DriftReason.missingProvider.text ∨
        r.reason = DriftReason.mismatchedProvider.text))

theorem id_of_approve {r : Request} {entry : Entry}
    (h : approve s t today root r = ⟨t', s', .ok entry⟩) (hid : r.id ≠ "") : entry.id = r.id := by
  unfold approve at h
  cases hgiven : entryFor t root today r with
  | error e =>
    rw [hgiven] at h
    cases h
  | ok given =>
    rw [hgiven] at h
    have hgivenId : given.id = r.id := by
      obtain ⟨code, dependencies, -, -, rfl⟩ := entryFor_eq_ok hgiven
      rfl
    rcases hadd : s.add t today given with ⟨u, x, e | id⟩
    · simp only [hadd] at h
      cases h
    · simp only [hadd, Outcome.mk.injEq, Except.ok.injEq] at h
      obtain ⟨rfl, rfl, hentry⟩ := h
      obtain ⟨rfl, hfresh, -, hwrote⟩ := add_eq_ok hadd
      have hentries : x.data.entries = s.data.entries ++ [s.withId given] := by
        rw [hwrote.store]
        rfl
      rw [Ledger.entry?_append hentries hfresh, Option.getD_some] at hentry
      have hempty : given.id.isEmpty = false := by simpa [hgivenId] using hid
      rw [← hentry, withId, hempty, ← hgivenId]
      rfl

theorem dependencies_of_approve {r : Request} {entry : Entry}
    (h : approve s t today root r = ⟨t', s', .ok entry⟩) :
    entry.reason = r.reason ∧ List.Forall₂ (fun ref d => d.targetFile = targetOf r.file ref ∧
      d.targetFunction = ref.function ∧ d.targetLine = ref.line) r.dependencies
      entry.dependencies := by
  obtain ⟨given, id, hgiven, rfl, -⟩ := approve_eq_ok h
  obtain ⟨code, dependencies, -, hsnapshots, rfl⟩ := entryFor_eq_ok hgiven
  exact ⟨rfl, (snapshots_eq_ok hsnapshots).imp fun _ _ hsnapshot => (snapshot_eq_ok hsnapshot).1⟩

theorem map_targetFile {refs : List DependencyRef} {ds : List Dependency}
    (h : List.Forall₂ (fun ref d => d.targetFile = targetOf file ref ∧
      d.targetFunction = ref.function ∧ d.targetLine = ref.line) refs ds) :
    ds.map (·.targetFile) = refs.map (targetOf file) := by
  induction h with
  | nil => rfl
  | cons hfirst _ ih => rw [List.map_cons, List.map_cons, hfirst.1, ih]

theorem fresh_of_alike {names : List String} (h : Alike root names t t') {name : String}
    (hname : name ∈ names) : fresh t' root name = fresh t root name := by
  unfold fresh
  rw [h name hname]

/-- An entry says what its marker says, also in what the ledger and the files become later. -/
theorem honours_of_approve {later : Tree} {reason : String} {entry : Entry}
    (hreason : m.reason.filter (!·.isEmpty) = some reason)
    (h : approve s t today root (requestOf file line m reason) = ⟨t', s', .ok entry⟩)
    (hread : Item.Read t root (.marked file line m)) (hheld : l.entry? entry.id = some entry)
    (hsame : Alike root (Item.marked file line m).names t later) :
    Honours root later l file line m entry := by
  obtain ⟨hentryReason, hdependencies⟩ := dependencies_of_approve h
  have hplace := place_of_approve h
  simp only [Entry.place, Prod.mk.injEq] at hplace
  obtain ⟨hfile, hline, hcategory⟩ := hplace
  obtain ⟨lines, hlines, -, hconsumer, hfound⟩ := hread
  obtain ⟨category, hsome⟩ := Option.isSome_iff_exists.mp
    (Marker.category_of_consumer hconsumer hfound)
  have hnames : entry.file :: entry.dependencies.map (·.targetFile) =
      (Item.marked file line m).names := by
    rw [hfile, map_targetFile hdependencies]
    rfl
  have hcurrent : Current (fresh later root) entry := by
    refine (current_of_approve h).congr fun name hname => fresh_of_alike hsame ?_
    rwa [← hnames]
  have hmarker : consumerFound (fresh later root) entry = true := by
    have hfresh : fresh later root entry.file = .ok lines := by
      rw [hfile]
      exact (fresh_of_alike hsame List.mem_cons_self).trans (fresh_of_ok hlines)
    have hconsumer' : Marker.consumer lines entry.line = .ok m := by
      rw [hline]
      exact hconsumer
    simp only [consumerFound, hfresh, hconsumer', hfound]
  refine ⟨hheld, hfile, hline, ?_, ?_, hdependencies, fun id hid hne => ?_, ?_⟩
  · rw [hentryReason]
    exact (Option.filter_eq_some_iff.mp hreason).1
  · rw [hcategory, hsome]
    simp [requestOf, hsome]
  · have hgiven : (requestOf file line m reason).id = id := by simp [requestOf, hid]
    rw [id_of_approve h (by rwa [hgiven]), hgiven]
  · rw [verdictOn, validate_fst, known_of_cache_eq_nil rfl]
    exact hcurrent.verdict fun _ => hmarker

/-! ## Walks that return -/

theorem Item.Read.congr (h : item.Read t root) (hsame : Alike root item.names t t') :
    item.Read t' root := by
  cases item with
  | unreadable file cause => trivial
  | marked file line m =>
    obtain ⟨lines, hlines, hmarker⟩ := h
    refine ⟨lines, ?_, hmarker⟩
    rw [hsame file List.mem_cons_self]
    exact hlines

theorem entries_of_handleAll {items : List Item}
    (h : handleAll today root s t items = ⟨t', s', .ok events⟩) :
    ∃ more, s'.data.entries = s.data.entries ++ more := by
  induction items generalizing s t events with
  | nil =>
    cases h
    exact ⟨[], (List.append_nil _).symm⟩
  | cons item rest ih =>
    obtain ⟨t₁, s₁, event, later, hfirst, hrest, -⟩ := handleAll_cons_eq_ok h
    obtain ⟨more, hmore⟩ := entries_of_handle hfirst
    obtain ⟨more', hmore'⟩ := ih hrest
    exact ⟨more ++ more', by rw [hmore', hmore, List.append_assoc]⟩

theorem honours_of_handleAll {items : List Item}
    (h : handleAll today root s t items = ⟨t', s', .ok events⟩)
    (hread : ∀ item ∈ items, item.Read t root)
    (hspares : Spares t root s.path (items.flatMap Item.names)) :
    List.Forall₂ (fun item event => ∀ entry, event = .added entry →
      ∃ file line m, item = .marked file line m ∧ Honours root t' s'.data file line m entry)
      items events := by
  induction items generalizing s t events with
  | nil =>
    cases h
    exact .nil
  | cons item rest ih =>
    obtain ⟨-, hkeeps⟩ := handleAll_keeps h
    obtain ⟨t₁, s₁, event, later, hfirst, hrest, rfl⟩ := handleAll_cons_eq_ok h
    obtain ⟨hreadFirst, hreadRest⟩ := List.forall_mem_cons.mp hread
    obtain ⟨hpath, hkeepsFirst⟩ := handle_keeps hfirst
    rw [List.flatMap_cons] at hspares
    refine .cons ?_ (ih hrest (fun item hitem => ?_) ?_)
    · rintro entry rfl
      obtain ⟨file, line, m, reason, rfl, hreason, happrove, -, hheld, -, -⟩ := handle_added hfirst
      obtain ⟨more, hmore⟩ := entries_of_handleAll hrest
      exact ⟨file, line, m, rfl, honours_of_approve hreason happrove hreadFirst
        (entry?_of_append hmore hheld) fun name hname =>
          hspares.sourceLines hkeeps (List.mem_append_left _ hname)⟩
    · refine (hreadRest item hitem).congr fun name hname => hspares.sourceLines hkeepsFirst ?_
      exact List.mem_append_right _ (List.mem_flatMap_of_mem hitem hname)
    · rw [hpath]
      exact (hspares.mono (List.subset_append_right _ _)).kept hkeepsFirst

/-! ## Walks that are cut short -/

/-- A file that cuts a walk short: its name holds a NUL, or a marker in it holds a number that is
too long. -/
inductive CutAt (t : Tree) (root : Path) (file : String) : Stop → Prop where
  | name {f : FileError} (hread : t.sourceLines (pathOf root file) = .error f)
      (hnul : f.cause = .nulInName) : CutAt t root file (.file f)
  | number {lines : List Line} {k : Nat} {code : Line}
      (hread : t.sourceLines (pathOf root file) = .ok lines) (hcode : lines[k]? = some code)
      (hcomment : Marker.commentText? code = none)
      (hlong : Marker.consumer lines (k + 1 : Nat) = .error .longNumeral) :
      CutAt t root file (.fault .longNumeral)

theorem itemsOf_eq_error_iff {stop : Stop} :
    itemsOf t root file = .error stop ↔ CutAt t root file stop := by
  unfold itemsOf
  constructor
  · intro h
    cases hlines : t.sourceLines (pathOf root file) with
    | error f =>
      simp only [hlines] at h
      split at h
      · cases h
      · rename_i hrefusal
        cases h
        exact .name hlines (by simpa [Cause.isRefusal] using hrefusal)
    | ok lines =>
      simp only [hlines] at h
      cases hmarked : Marker.findAll lines with
      | ok marked =>
        simp only [hmarked] at h
        cases h
      | error f =>
        simp only [hmarked] at h
        cases h
        obtain ⟨rfl, k, code, hcode, hcomment, hlong⟩ := Marker.findAll_eq_error_iff.mp hmarked
        exact .number hlines hcode hcomment hlong
  · intro h
    cases h with
    | name hread hnul => simp [hread, hnul, Cause.isRefusal]
    | number hread hcode hcomment hlong =>
      have hmarked := Marker.findAll_eq_error_iff.mpr ⟨rfl, _, _, hcode, hcomment, hlong⟩
      simp only [hread, hmarked]

/-- A walk is cut short by the first file that can. -/
theorem found_eq_error_iff {files : List String} {stop : Stop} :
    (found t root files).2 = .error stop ↔
      ∃ before file after, files = before ++ file :: after ∧
        (∀ name ∈ before, ∀ other, ¬ CutAt t root name other) ∧ CutAt t root file stop := by
  induction files with
  | nil => simp [found]
  | cons first rest ih =>
    unfold found
    -- The first file ends the walk, or else it stands before the file that does.
    cases hitems : itemsOf t root first with
    | error stop' =>
      have hcut := itemsOf_eq_error_iff.mp hitems
      constructor
      · intro h
        cases h
        exact ⟨[], first, rest, rfl, List.forall_mem_nil _, hcut⟩
      · rintro ⟨before, file, after, hsplit, hbefore, hfile⟩
        cases before with
        | nil =>
          obtain ⟨rfl, rfl⟩ := List.cons.inj hsplit
          rw [itemsOf_eq_error_iff.mpr hfile, Except.error.injEq] at hitems
          rw [hitems]
        | cons name before =>
          obtain ⟨rfl, -⟩ := List.cons.inj hsplit
          exact absurd hcut (hbefore first List.mem_cons_self stop')
    | ok items =>
      have hnot : ∀ other, ¬ CutAt t root first other := by
        intro other hcut
        rw [itemsOf_eq_error_iff.mpr hcut] at hitems
        cases hitems
      dsimp only
      rw [ih]
      constructor
      · rintro ⟨before, file, after, rfl, hbefore, hfile⟩
        exact ⟨first :: before, file, after, rfl, List.forall_mem_cons.mpr ⟨hnot, hbefore⟩, hfile⟩
      · rintro ⟨before, file, after, hsplit, hbefore, hfile⟩
        cases before with
        | nil =>
          obtain ⟨rfl, rfl⟩ := List.cons.inj hsplit
          exact absurd hfile (hnot stop)
        | cons name before =>
          obtain ⟨rfl, rfl⟩ := List.cons.inj hsplit
          exact ⟨before, file, after, rfl, (List.forall_mem_cons.mp hbefore).2, hfile⟩

theorem not_cutAt_of_found {files : List String} (h : (found t root files).2 = .ok ()) :
    ∀ file ∈ files, ∀ stop, ¬ CutAt t root file stop := by
  induction files with
  | nil => exact List.forall_mem_nil _
  | cons first rest ih =>
    unfold found at h
    cases hitems : itemsOf t root first with
    | error stop =>
      rw [hitems] at h
      cases h
    | ok items =>
      rw [hitems] at h
      refine List.forall_mem_cons.mpr ⟨fun stop hcut => ?_, ih h⟩
      rw [itemsOf_eq_error_iff.mpr hcut] at hitems
      cases hitems

/-! ## Approvals that end a walk -/

/-- How an approval ends a walk.  One of the files it names has a NUL in its name; an id is to be
made up and a number of the category is too long; the ledger with the new entry is one that the
program cannot write; or the system does not write it, and that is a failed write. -/
inductive Halts (today : String) (root : Path) (s : Store) (t : Tree) (r : Request) :
    LedgerError → Prop where
  | badName {name : String} {f : FileError}
      (hentry : entryFor t root today r = .error (.stopped (.file f)))
      (hname : name ∈ r.file :: r.dependencies.map (targetOf r.file))
      (hread : t.sourceLines (pathOf root name) = .error f) (hnul : f.cause = .nulInName) :
      Halts today root s t r (.stopped (.file f))
  | noNumber {entry : Entry} (hentry : entryFor t root today r = .ok entry) (hid : r.id = "")
      (hnumber : s.data.isNumbered r.category = false) :
      Halts today root s t r (.stopped (.fault .longNumeral))
  | unwritable {entry : Entry} {stop : Stop}
      (hplan : (Operation.approve root r).plan s t today = .ok (some (.append entry)))
      (hsave : (Store.save { s with data := Edit.apply s.data (.append entry) } t today).result =
        .error (.stopped stop))
      (hwritable : ¬ Writable s.path today (Edit.apply s.data (.append entry))) :
      Halts today root s t r (.stopped stop)
  | unwritten {entry : Entry} {cause : Cause}
      (hplan : (Operation.approve root r).plan s t today = .ok (some (.append entry)))
      (hsave : (Store.save { s with data := Edit.apply s.data (.append entry) } t today).result =
        .error (.writeFailed s.path cause)) :
      Halts today root s t r (.writeFailed s.path cause)

theorem readLines_ends {name : String} (h : readLines t root name = .error e)
    (he : endsSync e = true) :
    ∃ f, t.sourceLines (pathOf root name) = .error f ∧ f.cause = .nulInName ∧
      e = .stopped (.file f) := by
  unfold readLines at h
  cases hlines : t.sourceLines (pathOf root name) with
  | ok lines =>
    rw [hlines] at h
    cases h
  | error f =>
    rw [hlines] at h
    cases h
    unfold LedgerError.ofRead at he ⊢
    by_cases hrefusal : f.cause.isRefusal = true
    · rw [if_pos hrefusal] at he
      cases he
    · rw [if_neg hrefusal]
      exact ⟨f, rfl, by simpa [Cause.isRefusal] using hrefusal, rfl⟩

theorem snapshots_ends {refs : List DependencyRef} (h : snapshots t root file refs = .error e)
    (he : endsSync e = true) :
    ∃ name ∈ refs.map (targetOf file), ∃ f, t.sourceLines (pathOf root name) = .error f ∧
      f.cause = .nulInName ∧ e = .stopped (.file f) := by
  induction refs with
  | nil => cases h
  | cons ref rest ih =>
    rw [snapshots] at h
    cases hfirst : snapshot t root file ref with
    | ok d =>
      rw [hfirst] at h
      cases hrest : snapshots t root file rest with
      | ok ds =>
        rw [hrest] at h
        cases h
      | error e' =>
        rw [hrest] at h
        cases h
        obtain ⟨name, hname, hbad⟩ := ih hrest
        exact ⟨name, List.mem_cons_of_mem _ hname, hbad⟩
    | error e' =>
      rw [hfirst] at h
      cases h
      refine ⟨targetOf file ref, List.mem_cons_self, ?_⟩
      unfold snapshot at hfirst
      dsimp only at hfirst
      rw [← targetOf] at hfirst
      cases hlines : readLines t root (targetOf file ref) with
      | error e' =>
        rw [hlines] at hfirst
        cases hfirst
        exact readLines_ends hlines he
      | ok lines =>
        rw [hlines] at hfirst
        dsimp only [bind, Except.bind] at hfirst
        cases hbody : Source.functionBody? lines ref.line ref.function with
        | some body =>
          rw [hbody] at hfirst
          cases hfirst
        | none =>
          rw [hbody] at hfirst
          cases hfirst
          cases he

theorem entryFor_ends {r : Request} (h : entryFor t root today r = .error e)
    (he : endsSync e = true) :
    ∃ name ∈ r.file :: r.dependencies.map (targetOf r.file), ∃ f,
      t.sourceLines (pathOf root name) = .error f ∧ f.cause = .nulInName ∧
        e = .stopped (.file f) := by
  rcases entryFor_eq_error_iff.mp h with hcode | ⟨-, hsnapshots⟩
  · refine ⟨r.file, List.mem_cons_self, ?_⟩
    unfold approvedCode at hcode
    cases hlines : readLines t root r.file with
    | error e' =>
      rw [hlines] at hcode
      cases hcode
      exact readLines_ends hlines he
    | ok lines =>
      rw [hlines] at hcode
      dsimp only [bind, Except.bind] at hcode
      cases hline : Source.codeAt? lines r.line with
      | some code =>
        rw [hline] at hcode
        cases hcode
      | none =>
        rw [hline] at hcode
        cases hcode
        cases he
  · obtain ⟨name, hname, hbad⟩ := snapshots_ends hsnapshots he
    exact ⟨name, List.mem_cons_of_mem _ hname, hbad⟩

/-- How a plan to add an entry ends a walk, and what else it comes to. -/
theorem planAdd_cases (s : Store) (entry : Entry) :
    (entry.id.isEmpty = true ∧ s.data.isNumbered entry.category = false ∧
      Operation.planAdd s entry = .error (.stopped (.fault .longNumeral))) ∨
    (∃ e, Operation.planAdd s entry = .error e ∧ endsSync e = false) ∨
    ∃ added, Operation.planAdd s entry = .ok (some (.append added)) := by
  unfold Operation.planAdd
  by_cases hnumber : (entry.id.isEmpty && !s.data.isNumbered entry.category) = true
  · rw [if_pos hnumber]
    simp only [Bool.and_eq_true, Bool.not_eq_true'] at hnumber
    exact .inl ⟨hnumber.1, hnumber.2, rfl⟩
  · rw [if_neg hnumber]
    refine .inr ?_
    dsimp only
    split
    · exact .inl ⟨_, rfl, rfl⟩
    · split
      · exact .inl ⟨_, rfl, rfl⟩
      · exact .inr ⟨_, rfl⟩

theorem save_ends {today : String} (h : (s.save t today).result = .error e) :
    (∃ cause, e = .writeFailed s.path cause) ∨
      ∃ stop, e = .stopped stop ∧ ¬ Writable s.path today s.data := by
  rcases hsave : s.save t today with ⟨t', s', r⟩
  rw [hsave] at h
  obtain rfl : r = .error e := h
  cases hundone : e.isUndone with
  | false =>
    refine .inr ?_
    cases e with
    | stopped stop =>
      refine ⟨stop, rfl, fun hwritable => ?_⟩
      rw [isUndone_of_save hwritable hsave] at hundone
      cases hundone
    | _ => cases hundone
  | true =>
    refine .inl ?_
    rcases save_eq_error hsave with ⟨-, -, -, rfl⟩ | ⟨-, -, ⟨-, -, rfl⟩ | hreplace⟩
    · cases hundone
    · cases hundone
    · rcases replaceFile_eq_error hreplace with ⟨-, rfl⟩ | ⟨f, rfl⟩
      · cases hundone
      · unfold LedgerError.ofWrite at hundone ⊢
        split
        · exact ⟨f.cause, rfl⟩
        · rename_i hrefusal
          rw [if_neg hrefusal] at hundone
          cases hundone

theorem result_commit_eq_error_iff {α : Type} {data : Ledger} {result : α} :
    (s.commit t today data result).result = .error e ↔
      (Store.save { s with data } t today).result = .error e := by
  unfold commit
  rcases Store.save { s with data } t today with ⟨t', s', e' | _⟩ <;> simp

theorem result_approve_eq_error_iff {r : Request} :
    (approve s t today root r).result = .error e ↔
      (Operation.execute s t today ((Operation.approve root r).plan s t today)).result =
        .error e := by
  rw [← Operation.approve_eq]
  rcases approve s t today root r with ⟨t', s', e' | entry⟩ <;> simp [Outcome.map, Except.map]

theorem plan_of_error {r : Request} (h : entryFor t root today r = .error e) :
    (Operation.approve root r).plan s t today = .error e := by
  dsimp only [Operation.plan]
  rw [h]

theorem plan_of_ok {r : Request} {entry : Entry} (h : entryFor t root today r = .ok entry) :
    (Operation.approve root r).plan s t today = Operation.planAdd s entry := by
  dsimp only [Operation.plan]
  rw [h]

theorem approve_halts_iff {r : Request} :
    ((approve s t today root r).result = .error e ∧ endsSync e = true) ↔
      Halts today root s t r e := by
  rw [result_approve_eq_error_iff]
  constructor
  · rintro ⟨h, he⟩
    cases hentry : entryFor t root today r with
    | error e' =>
      rw [plan_of_error hentry] at h
      cases h
      obtain ⟨name, hname, f, hread, hnul, rfl⟩ := entryFor_ends hentry he
      exact .badName hentry hname hread hnul
    | ok entry =>
      have hplan : (Operation.approve root r).plan s t today = Operation.planAdd s entry :=
        plan_of_ok hentry
      have hgiven : entry.id = r.id ∧ entry.category = r.category := by
        obtain ⟨code, dependencies, -, -, rfl⟩ := entryFor_eq_ok hentry
        exact ⟨rfl, rfl⟩
      -- A plan without a number ends the walk, a refusal does not, and an entry only by its save.
      rcases planAdd_cases s entry with ⟨hid, hnumber, hadd⟩ | ⟨e', hadd, hgoes⟩ | ⟨added, hadd⟩
      · rw [hplan, hadd] at h
        cases h
        rw [hgiven.1] at hid
        rw [hgiven.2] at hnumber
        exact .noNumber hentry (by simpa using hid) hnumber
      · rw [hplan, hadd] at h
        cases h
        rw [hgoes] at he
        cases he
      · rw [hadd] at hplan
        rw [hplan] at h
        have hsave := result_commit_eq_error_iff.mp h
        rcases save_ends hsave with ⟨cause, rfl⟩ | ⟨stop, rfl, hwritable⟩
        · exact .unwritten hplan hsave
        · exact .unwritable hplan hsave hwritable
  · intro h
    cases h with
    | badName hentry hname hread hnul =>
      rw [plan_of_error hentry]
      exact ⟨rfl, rfl⟩
    | noNumber hentry hid hnumber =>
      obtain ⟨code, dependencies, -, -, rfl⟩ := entryFor_eq_ok hentry
      have hempty : r.id.isEmpty = true := by rw [hid]; rfl
      rw [plan_of_ok hentry]
      simp [Operation.planAdd, hempty, hnumber, Operation.execute, refuse, endsSync]
    | unwritable hplan hsave hwritable =>
      rw [hplan]
      exact ⟨result_commit_eq_error_iff.mpr hsave, rfl⟩
    | unwritten hplan hsave =>
      rw [hplan]
      exact ⟨result_commit_eq_error_iff.mpr hsave, rfl⟩

theorem handle_halts_iff :
    (handle today root s t item).result = .error e ↔
      ∃ file line m reason, item = .marked file line m ∧ isCovered s.data file line m = false ∧
        m.reason.filter (!·.isEmpty) = some reason ∧
        Halts today root s t (requestOf file line m reason) e := by
  cases item with
  | unreadable file cause =>
    constructor
    · intro h
      rw [handle] at h
      cases h
    · rintro ⟨_, _, _, _, heq, -⟩
      cases heq
  | marked file line m =>
    simp only [← approve_halts_iff, Item.marked.injEq]
    constructor
    · intro h
      rw [handle] at h
      cases hcovered : isCovered s.data file line m with
      | true =>
        rw [hcovered, if_pos rfl] at h
        cases h
      | false =>
        rw [hcovered, if_neg Bool.false_ne_true] at h
        cases hreason : m.reason.filter (!·.isEmpty) with
        | none =>
          rw [hreason] at h
          cases h
        | some reason =>
          rw [hreason] at h
          refine ⟨file, line, m, reason, ⟨rfl, rfl, rfl⟩, hcovered, hreason, ?_⟩
          rcases happrove : approve s t today root (requestOf file line m reason) with
            ⟨t', s', e' | entry⟩
          · simp only [happrove] at h
            split at h
            · rename_i hends
              cases h
              exact ⟨rfl, hends⟩
            · cases h
          · simp only [happrove] at h
            cases h
    · rintro ⟨_, _, _, reason, ⟨rfl, rfl, rfl⟩, hcovered, hreason, happrove, hends⟩
      have hnot : ¬ isCovered s.data file line m = true := by simp [hcovered]
      rw [handle, if_neg hnot, hreason]
      rcases hresult : approve s t today root (requestOf file line m reason) with
        ⟨t', s', e' | entry⟩
      · rw [hresult] at happrove
        cases happrove
        simp [hresult, hends]
      · rw [hresult] at happrove
        cases happrove

/-- Items are handled up to the first one that ends the walk. -/
theorem handleAll_halts_iff {items : List Item} :
    (handleAll today root s t items).result = .error e ↔
      ∃ before item after t₁ s₁ events, items = before ++ item :: after ∧
        handleAll today root s t before = ⟨t₁, s₁, .ok events⟩ ∧
        (handle today root s₁ t₁ item).result = .error e := by
  constructor
  · intro h
    induction items generalizing s t with
    | nil => cases h
    | cons item rest ih =>
      rcases hfirst : handle today root s t item with ⟨t₁, s₁, e' | event⟩
      · rw [handleAll_cons_of_error hfirst] at h
        cases h
        exact ⟨[], item, rest, t, s, [], rfl, rfl, by rw [hfirst]⟩
      · rw [handleAll_cons_of_ok hfirst] at h
        have hrest : (handleAll today root s₁ t₁ rest).result = .error e := by
          rcases hlater : handleAll today root s₁ t₁ rest with ⟨u, x, e' | later⟩
          · rw [hlater] at h
            cases h
            rfl
          · rw [hlater] at h
            cases h
        obtain ⟨before, item', after, t₂, s₂, events, rfl, hbefore, hitem⟩ := ih hrest
        refine ⟨item :: before, item', after, t₂, s₂, event :: events, rfl, ?_, hitem⟩
        rw [handleAll_cons_of_ok hfirst, hbefore]
        rfl
  · rintro ⟨before, item, after, t₁, s₁, events, rfl, hbefore, hitem⟩
    rcases hfirst : handle today root s₁ t₁ item with ⟨t₂, s₂, e' | event⟩
    · rw [hfirst] at hitem
      cases hitem
      rw [handleAll_append_of_ok hbefore, handleAll_cons_of_error hfirst]
      rfl
    · rw [hfirst] at hitem
      cases hitem

/-! ## All walks -/

/-- How a walk over files comes to no result: after some marked lines there is one whose approval
ends it, or after all marked lines there is a file that cuts it short. -/
inductive SyncHalts (today : String) (root : Path) (s : Store) (t : Tree) (files : List String) :
    LedgerError → Prop where
  | marker {e : LedgerError} {before after : List Item} {file : String} {line : Int}
      {m : ConsumerMarker} {reason : String} {t₁ : Tree} {s₁ : Store} {events : List Event}
      (hfound : (found t root files).1 = before ++ .marked file line m :: after)
      (hbefore : handleAll today root s t before = ⟨t₁, s₁, .ok events⟩)
      (huncovered : isCovered s₁.data file line m = false)
      (hreason : m.reason.filter (!·.isEmpty) = some reason)
      (hhalts : Halts today root s₁ t₁ (requestOf file line m reason) e) :
      SyncHalts today root s t files e
  | file {before after : List String} {file : String} {stop : Stop} {t₁ : Tree} {s₁ : Store}
      {events : List Event} (hfiles : files = before ++ file :: after)
      (hbefore : ∀ name ∈ before, ∀ other, ¬ CutAt t root name other)
      (hcut : CutAt t root file stop)
      (hfound : handleAll today root s t (found t root files).1 = ⟨t₁, s₁, .ok events⟩) :
      SyncHalts today root s t files (.stopped stop)

theorem concluded_eq_error_iff {o : Outcome (List Event)} {stop : Except Stop Unit}
    {done : SyncResult} :
    (concluded o stop done).result = .error e ↔
      o.result = .error e ∨
        ∃ t₁ s₁ events why, o = ⟨t₁, s₁, .ok events⟩ ∧ stop = .error why ∧ e = .stopped why := by
  rcases o with ⟨t₁, s₁, e' | events⟩
  · simp [concluded]
  · cases stop <;> simp [concluded, eq_comm]

theorem sync_eq_error_iff {files : List String} (hspares : Spares t root s.path files) :
    (sync s t today root files).result = .error e ↔ SyncHalts today root s t files e := by
  rw [sync_eq hspares, concluded_eq_error_iff]
  constructor
  · rintro (hitems | ⟨t₁, s₁, events, stop, hall, hend, rfl⟩)
    · obtain ⟨before, item, after, t₁, s₁, events, hfound, hbefore, hitem⟩ :=
        handleAll_halts_iff.mp hitems
      obtain ⟨file, line, m, reason, rfl, huncovered, hreason, hhalts⟩ := handle_halts_iff.mp hitem
      exact .marker hfound hbefore huncovered hreason hhalts
    · obtain ⟨before, file, after, hfiles, hbefore, hcut⟩ := found_eq_error_iff.mp hend
      exact .file hfiles hbefore hcut hall
  · intro h
    cases h with
    | marker hfound hbefore huncovered hreason hhalts =>
      refine .inl (handleAll_halts_iff.mpr ⟨_, _, _, _, _, _, hfound, hbefore, ?_⟩)
      exact handle_halts_iff.mpr ⟨_, _, _, _, rfl, huncovered, hreason, hhalts⟩
    | file hfiles hbefore hcut hall =>
      exact .inr ⟨_, _, _, _, hall, found_eq_error_iff.mpr ⟨_, _, _, hfiles, hbefore, hcut⟩, rfl⟩

/-- A walk comes to no result exactly where it halts.  When it returns, there is one event for each
marked line and each unreadable file, for each time that the file is listed, and they make up the
result.  An entry that was added says what its marker says; with markers enforced it is valid if the
marker above each function lists it, and otherwise broken for want of such a marker.  The ledger's
own file, its neighbour and the directories made for them are not among the files that are listed or
named by markers. -/
theorem sync_accounts_for_markers_unless_halted {files : List String}
    (hspares : Spares t root s.path (files ++ (found t root files).1.flatMap Item.names)) :
    (∀ e, (sync s t today root files).result = .error e ↔ SyncHalts today root s t files e) ∧
    ∀ t' s' r, sync s t today root files = ⟨t', s', .ok r⟩ →
      (∀ file ∈ files, ∀ stop, ¬ CutAt t root file stop) ∧
      ∃ events, r = .ofEvents events ∧
        List.Forall₂ (Lasts root s'.data t') (found t root files).1 events ∧
        List.Forall₂ (fun item event => ∀ entry, event = .added entry →
          ∃ file line m, item = .marked file line m ∧ Honours root t' s'.data file line m entry)
          (found t root files).1 events := by
  have hlisted : Spares t root s.path files := hspares.mono (List.subset_append_left _ _)
  have hnamed : Spares t root s.path ((found t root files).1.flatMap Item.names) :=
    hspares.mono (List.subset_append_right _ _)
  refine ⟨fun e => sync_eq_error_iff hlisted, fun t' s' r h => ?_⟩
  obtain ⟨hend, events, hevents, rfl⟩ := (sync_eq_ok_iff hlisted).mp h
  refine ⟨not_cutAt_of_found hend, events, rfl, lasts_of_found hevents hnamed, ?_⟩
  exact honours_of_handleAll hevents (fun item hitem => read_of_mem_found hitem) hnamed

/-- A project with a marker that names a function, which is marked in its turn. -/
def relyingProject : Tree :=
  ⟨[(["p"], .dir),
    (["p", "a.js"], .file ("// @validation-ignore null-access\n// @reason: checked\n" ++
      "// @dependency: load at line 2 [in b.js]\n// @whitelist-id: n-1\nx.y;\n").toUTF8),
    (["p", "b.js"], .file "// @validation-dependency n-1\nfunction load() \x7b \x7d".toUTF8)]⟩

def relyingWalk : Outcome SyncResult :=
  sync (Operation.emptyLedger "l.json") relyingProject "2025-03-04" sampleRoot ["a.js"]

theorem sync_accounts_for_markers_unless_halted_sample :
    ∃ t' s' r entry verdict, relyingWalk = ⟨t', s', .ok r⟩ ∧ r.added = ["n-1"] ∧
      s'.data.entry? "n-1" = some entry ∧ entry.file = "a.js" ∧ entry.line = 5 ∧
      verdictOn { root := sampleRoot, enforce := true } t' entry = .ok verdict ∧
      verdict.state = .valid := by
  obtain ⟨hspares, hone, hdone⟩ : Spares relyingProject sampleRoot
      (Operation.emptyLedger "l.json").path
        (["a.js"] ++ (found relyingProject sampleRoot ["a.js"]).1.flatMap Item.names) ∧
      (found relyingProject sampleRoot ["a.js"]).1.length = 1 ∧
      relyingWalk.result.toOption.map (·.added) = some ["n-1"] ∧
      (relyingWalk.store.data.entry? "n-1").map (fun e => (e.file, e.line)) = some ("a.js", 5) ∧
      (relyingWalk.store.data.entry? "n-1").all (fun e =>
        e.dependencies.all (providerLists (fresh relyingWalk.tree sampleRoot) e.id)) = true := by
    unfold Spares
    decide +kernel
  rcases hwalk : relyingWalk with ⟨t', s', e | r⟩
  · rw [hwalk] at hdone
    cases hdone.1
  · rw [hwalk] at hdone
    obtain ⟨hadded, hplace, hmarked⟩ := hdone
    obtain ⟨-, events, hr, -, hhonours⟩ :=
      (sync_accounts_for_markers_unless_halted hspares).2 t' s' r hwalk
    have hids : events.filterMap Event.id? = ["n-1"] := by
      rw [hr] at hadded
      exact Option.some_inj.mp hadded
    obtain ⟨item, hitem⟩ := List.length_eq_one_iff.mp hone
    rw [hitem, List.forall₂_cons_left_iff] at hhonours
    obtain ⟨event, rest, hevent, hrest, rfl⟩ := hhonours
    rw [List.forall₂_nil_left_iff.mp hrest] at hids
    cases event with
    | skipped location => cases hids
    | failed message => cases hids
    | added entry =>
      obtain ⟨file, line, m, -, h⟩ := hevent entry rfl
      have hid : entry.id = "n-1" := (List.cons.inj hids).1
      have hheld : s'.data.entry? "n-1" = some entry := by
        rw [← hid]
        exact h.held
      rw [hheld] at hplace hmarked
      obtain ⟨hfile, hline⟩ := Prod.mk.inj (Option.some_inj.mp hplace)
      obtain ⟨verdict, hverdict, hvalid, -⟩ := h.verdict
      refine ⟨t', s', r, entry, verdict, rfl, Option.some_inj.mp hadded, hheld, hfile, hline,
        hverdict, hvalid.mpr ?_⟩
      exact List.all_eq_true.mp hmarked

/-- A project with a marker that names a function in a file whose name holds a NUL. -/
def nulProject : Tree :=
  ⟨[(["p"], .dir),
    (["p", "a.js"], .file ("// @validation-ignore null-access\n// @reason: checked\n" ++
      "// @dependency: load at line 1 [in b\x00.js]\nx.y;\n").toUTF8)]⟩

/-- One marker ends the walk, and not because the ledger could not be written. -/
theorem sync_ended_by_nul_in_name :
    (sync (Operation.emptyLedger "l.json") nulProject "2025-03-04" sampleRoot ["a.js"]).result =
        .error (.stopped (.file ⟨.nulInName, "/p/b\x00.js"⟩)) ∧
      ∀ path cause, LedgerError.stopped (.file ⟨.nulInName, "/p/b\x00.js"⟩) ≠
        .writeFailed path cause := by
  refine ⟨by decide +kernel, fun path cause => nofun⟩

end NullAccess.Approval
