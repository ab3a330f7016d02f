import NullAccess.Proofs.Ledger.Place
import NullAccess.Proofs.Sync.Walk

/-!
# A second walk

What a walk does about an item is settled once the item is handled: an entry stays where it is, and
what was refused is refused again, in whatever the ledger has become (`Lasts`).  Handling one item
settles it (`lasts_of_handle`) and unsettles no other (`Lasts.handle`).  So a second walk over the
same files does nothing (`second_sync_changes_nothing`).
-/

namespace NullAccess.Approval

open Store Validator

variable {s s' : Store} {t t' : Tree} {today day : String} {root : Path}
  {file : String} {line : Int} {m : ConsumerMarker} {item other : Item} {event : Event}
  {events : List Event} {l l' : Ledger}

/-! ## Items that were read -/

/-- A marked line with the marker that is read above it. -/
def Item.Read (t : Tree) (root : Path) : Item → Prop
  | .unreadable _ _ => True
  | .marked file line m =>
    ∃ lines, t.sourceLines (pathOf root file) = .ok lines ∧ (1 ≤ line ∧ line ≤ lines.length) ∧
      Marker.consumer lines line = .ok m ∧ m.found = true

theorem read_of_itemsOf {items : List Item} (h : itemsOf t root file = .ok items)
    (hitem : item ∈ items) : item.Read t root := by
  unfold itemsOf at h
  cases hlines : t.sourceLines (pathOf root file) with
  | error e =>
    rw [hlines] at h
    dsimp only at h
    split at h
    · cases h
      rw [List.mem_singleton] at hitem
      subst hitem
      trivial
    · cases h
  | ok lines =>
    rw [hlines] at h
    cases hmarked : Marker.findAll lines with
    | error f =>
      simp only [hmarked] at h
      cases h
    | ok marked =>
      simp only [hmarked, Except.ok.injEq] at h
      rw [← h, List.mem_map] at hitem
      obtain ⟨⟨line, m⟩, hm, rfl⟩ := hitem
      exact ⟨lines, hlines, Marker.consumer_of_mem_findAll hmarked hm⟩

theorem read_of_mem_found {files : List String} (h : item ∈ (found t root files).1) :
    item.Read t root := by
  induction files with
  | nil => cases h
  | cons file rest ih =>
    unfold found at h
    cases hitems : itemsOf t root file with
    | error stop =>
      rw [hitems] at h
      cases h
    | ok items =>
      rw [hitems, List.mem_append] at h
      rcases h with hmem | hmem
      · exact read_of_itemsOf hitems hmem
      · exact ih hmem

/-- A line has one marker. -/
theorem Item.Read.marker_eq {m' : ConsumerMarker} (h : Item.Read t root (.marked file line m))
    (h' : Item.Read t root (.marked file line m')) : m = m' := by
  obtain ⟨lines, hlines, -, hm, -⟩ := h
  obtain ⟨lines', hlines', -, hm', -⟩ := h'
  rw [hlines, Except.ok.injEq] at hlines'
  rw [hlines', hm', Except.ok.injEq] at hm
  exact hm.symm

/-! ## Files that stay -/

/-- Whether some files read the same in two trees. -/
def Alike (root : Path) (names : List String) (t t' : Tree) : Prop :=
  ∀ name ∈ names, t'.sourceLines (pathOf root name) = t.sourceLines (pathOf root name)

theorem readLines_congr {names : List String} (h : Alike root names t t') {name : String}
    (hname : name ∈ names) : readLines t' root name = readLines t root name := by
  unfold readLines
  rw [h name hname]

theorem snapshots_congr {refs : List DependencyRef}
    (h : Alike root (refs.map (targetOf file)) t t') :
    snapshots t' root file refs = snapshots t root file refs := by
  induction refs with
  | nil => rfl
  | cons ref rest ih =>
    have hfirst : snapshot t' root file ref = snapshot t root file ref := by
      have hread : readLines t' root (targetOf file ref) = readLines t root (targetOf file ref) :=
        readLines_congr h List.mem_cons_self
      unfold snapshot
      dsimp only [targetOf] at hread ⊢
      rw [hread]
    have hrest : Alike root (rest.map (targetOf file)) t t' := fun name hname =>
      h name (List.mem_cons_of_mem _ hname)
    rw [snapshots, snapshots, hfirst, ih hrest]

theorem entryFor_congr {r : Request}
    (h : Alike root (r.file :: r.dependencies.map (targetOf r.file)) t t') :
    entryFor t' root today r = entryFor t root today r := by
  have hcode : approvedCode t' root r.file r.line = approvedCode t root r.file r.line := by
    unfold approvedCode
    rw [readLines_congr h List.mem_cons_self]
  have hrefs : Alike root (r.dependencies.map (targetOf r.file)) t t' := fun name hname =>
    h name (List.mem_cons_of_mem _ hname)
  unfold entryFor
  rw [hcode, snapshots_congr hrefs]

theorem found_congr {files : List String} (h : Alike root files t t') :
    found t' root files = found t root files := by
  induction files with
  | nil => rfl
  | cons file rest ih =>
    have hfirst : itemsOf t' root file = itemsOf t root file := by
      unfold itemsOf
      rw [h file List.mem_cons_self]
    have hrest : Alike root rest t t' := fun name hname => h name (List.mem_cons_of_mem _ hname)
    unfold found
    rw [hfirst, ih hrest]

/-! ## Ledgers that grow -/

theorem entry?_of_append {id : String} {e : Entry} {more : List Entry}
    (hmore : l'.entries = l.entries ++ more) (h : l.entry? id = some e) :
    l'.entry? id = some e := by
  unfold Ledger.entry? at h ⊢
  rw [hmore, List.find?_append, h]
  rfl

theorem isCovered_of_append {more : List Entry} (hmore : l'.entries = l.entries ++ more)
    (h : isCovered l file line m = true) : isCovered l' file line m = true := by
  unfold isCovered Ledger.find? at h ⊢
  rw [hmore, List.find?_append, Option.isSome_or, h, Bool.true_or]

theorem Refused.mono {more : List Entry} {why : String} (h : Refused root l t file line m why)
    (hmore : l'.entries = l.entries ++ more)
    (hsame : Alike root (Item.marked file line m).names t t') :
    Refused root l' t' file line m why := by
  have hentry : ∀ reason day, entryFor t' root day (requestOf file line m reason) =
      entryFor t root day (requestOf file line m reason) := fun _ _ => entryFor_congr hsame
  cases h with
  | noReason h => exact .noReason h
  | noSnapshot hreason h he =>
    refine .noSnapshot hreason (fun day => ?_) he
    rw [hentry]
    exact h day
  | idInUse hreason h hid hused =>
    refine .idInUse hreason (fun day => ?_) hid ?_
    · rw [hentry]
      exact h day
    · obtain ⟨e, he⟩ := Option.isSome_iff_exists.mp hused
      rw [entry?_of_append hmore he]
      rfl

/-! ## What lasts -/

/-- What is done about an item and holds of the ledger and the files: a line that is passed over is
covered, an entry that was added is there, for the item's line, and what was refused is refused
still. -/
inductive Lasts (root : Path) (l : Ledger) (t : Tree) : Item → Event → Prop where
  | unreadable (file : String) (cause : Cause) :
      Lasts root l t (.unreadable file cause) (.failed (LedgerError.unreadable file cause).message)
  | skipped {file : String} {line : Int} {m : ConsumerMarker}
      (hcovered : isCovered l file line m = true) :
      Lasts root l t (.marked file line m) (.skipped (locationOf file line))
  | added {file : String} {line : Int} {m : ConsumerMarker} {e : Entry}
      (hheld : l.entry? e.id = some e) (hunfit : e.unfit = [])
      (hplace : e.place = (file, line, m.category.getD nullAccessCategory)) :
      Lasts root l t (.marked file line m) (.added e)
  | failed {file : String} {line : Int} {m : ConsumerMarker} {why : String}
      (huncovered : isCovered l file line m = false) (hrefused : Refused root l t file line m why) :
      Lasts root l t (.marked file line m) (.failed (complaint file line why))

theorem isCovered_of_place {e : Entry} (he : e ∈ l.entries) (hunfit : e.unfit = [])
    (hplace : e.place = (file, line, m.category.getD nullAccessCategory)) :
    isCovered l file line m = true := by
  unfold isCovered Ledger.find?
  rw [List.find?_isSome]
  refine ⟨e, he, ?_⟩
  obtain ⟨hat, hof⟩ := (Entry.place_eq_iff hunfit _ _ _).mp hplace
  rw [hat, Option.all_some, hof]
  rfl

theorem place_of_approve {r : Request} {e : Entry}
    (h : approve s t today root r = ⟨t', s', .ok e⟩) : e.place = (r.file, r.line, r.category) := by
  obtain ⟨given, id, hgiven, rfl, -⟩ := approve_eq_ok h
  obtain ⟨code, dependencies, -, -, rfl⟩ := entryFor_eq_ok hgiven
  rfl

/-- What an approval adds. -/
theorem handle_added {e : Entry}
    (h : handle today root s t item = ⟨t', s', .ok (.added e)⟩) :
    ∃ file line m reason, item = .marked file line m ∧
      m.reason.filter (!·.isEmpty) = some reason ∧
      approve s t today root (requestOf file line m reason) = ⟨t', s', .ok e⟩ ∧
      s'.data.entries = s.data.entries ++ [e] ∧ s'.data.entry? e.id = some e ∧ e.unfit = [] ∧
      e.place = (file, line, m.category.getD nullAccessCategory) := by
  cases item with
  | unreadable file cause => cases h
  | marked file line m =>
    rcases handle_eq_ok h with ⟨-, heq, -⟩ | ⟨-, -, -, why, -, heq⟩ |
      ⟨-, reason, entry, hreason, heq, happrove⟩
    · cases heq
    · cases heq
    · cases heq
      obtain ⟨-, -, -, -, hfresh, -, hwrote⟩ := approve_eq_ok happrove
      have hentries : s'.data.entries = s.data.entries ++ [e] := by
        rw [hwrote.store]
        rfl
      exact ⟨file, line, m, reason, rfl, hreason, happrove, hentries,
        Ledger.entry?_append hentries hfresh, unfit_of_approve happrove, place_of_approve happrove⟩

/-- Only an approval alters the ledger. -/
theorem store_of_handle (h : handle today root s t item = ⟨t', s', .ok event⟩)
    (hevent : ∀ e, event ≠ .added e) : t' = t ∧ s' = s := by
  cases item with
  | unreadable file cause =>
    cases h
    exact ⟨rfl, rfl⟩
  | marked file line m =>
    rcases handle_eq_ok h with ⟨-, -, ht, hs⟩ | ⟨-, ht, hs, -⟩ | ⟨-, -, entry, -, heq, -⟩
    · exact ⟨ht, hs⟩
    · exact ⟨ht, hs⟩
    · exact absurd heq (hevent entry)

theorem entries_of_handle (h : handle today root s t item = ⟨t', s', .ok event⟩) :
    ∃ more, s'.data.entries = s.data.entries ++ more := by
  by_cases hadded : ∃ e, event = .added e
  · obtain ⟨e, rfl⟩ := hadded
    obtain ⟨-, -, -, -, -, -, -, hentries, -, -⟩ := handle_added h
    exact ⟨[e], hentries⟩
  · obtain ⟨-, rfl⟩ := store_of_handle h (not_exists.mp hadded)
    exact ⟨[], (List.append_nil _).symm⟩

/-- Handling an item settles it. -/
theorem lasts_of_handle (h : handle today root s t item = ⟨t', s', .ok event⟩) :
    Lasts root s'.data t' item event := by
  cases item with
  | unreadable file cause =>
    cases h
    exact .unreadable file cause
  | marked file line m =>
    rcases handle_eq_ok h with
      ⟨hcovered, rfl, rfl, rfl⟩ | ⟨huncovered, rfl, rfl, why, hrefused, rfl⟩ |
      ⟨-, reason, entry, -, rfl, -⟩
    · exact .skipped hcovered
    · exact .failed huncovered hrefused
    · obtain ⟨_, _, _, _, hitem, -, -, -, hheld, hunfit, hplace⟩ := handle_added h
      cases hitem
      exact .added hheld hunfit hplace

/-- Handling an item leaves another settled, also where both are of one line: that line has one
marker, and a marker that was refused is refused again. -/
theorem Lasts.handle {done : Event} (hlasts : Lasts root s.data t other done)
    (h : Approval.handle today root s t item = ⟨t', s', .ok event⟩)
    (hread : ∀ file line m m', other = .marked file line m → item = .marked file line m' → m = m')
    (hsame : Alike root other.names t t') : Lasts root s'.data t' other done := by
  obtain ⟨more, hmore⟩ := entries_of_handle h
  cases hlasts with
  | unreadable file cause => exact .unreadable file cause
  | skipped hcovered => exact .skipped (isCovered_of_append hmore hcovered)
  | added hheld hunfit hplace => exact .added (entry?_of_append hmore hheld) hunfit hplace
  | @failed file line m why huncovered hrefused =>
    refine .failed ?_ (hrefused.mono hmore hsame)
    by_cases hadded : ∃ e, event = .added e
    · obtain ⟨e, rfl⟩ := hadded
      obtain ⟨file', line', m', -, rfl, -, -, hentries, -, hunfit, hplace⟩ := handle_added h
      by_cases heq : file' = file ∧ line' = line
      · -- The line of the refused marker again: it would not have been approved.
        obtain ⟨rfl, rfl⟩ := heq
        obtain rfl := hread _ _ _ _ rfl rfl
        rw [handle_of_refused huncovered hrefused] at h
        cases h
      · have hnot : e.isAt file line = false := by
          simp only [Entry.place, Prod.mk.injEq] at hplace
          obtain ⟨rfl, rfl, -⟩ := hplace
          have hnone : ∀ name, e.unfit? name = none := fun name => unfit?_eq_none hunfit name
          simpa [Entry.isAt, Entry.isLine, hnone] using heq
        unfold isCovered Ledger.find? at huncovered ⊢
        rw [hentries, List.find?_append]
        simpa [hnot] using huncovered
    · obtain ⟨-, rfl⟩ := store_of_handle h (not_exists.mp hadded)
      exact huncovered

/-! ## The second walk -/

theorem lasts_handleAll {items : List Item} {done : Event}
    (hlasts : Lasts root s.data t other done)
    (h : handleAll today root s t items = ⟨t', s', .ok events⟩)
    (hread : ∀ item ∈ items, ∀ file line m m',
      other = .marked file line m → item = .marked file line m' → m = m')
    (hspares : Spares t root s.path other.names) : Lasts root s'.data t' other done := by
  induction items generalizing s t events with
  | nil =>
    cases h
    exact hlasts
  | cons item rest ih =>
    obtain ⟨t₁, s₁, event, later, hfirst, hrest, -⟩ := handleAll_cons_eq_ok h
    obtain ⟨hreadFirst, hreadRest⟩ := List.forall_mem_cons.mp hread
    obtain ⟨hpath, hkeeps⟩ := handle_keeps hfirst
    have hspares' : Spares t₁ root s₁.path other.names := by
      rw [hpath]
      exact hspares.kept hkeeps
    exact ih (hlasts.handle hfirst hreadFirst fun _ hname => hspares.sourceLines hkeeps hname) hrest
      hreadRest hspares'

/-- After a walk every item is settled. -/
theorem lasts_of_handleAll {items : List Item}
    (h : handleAll today root s t items = ⟨t', s', .ok events⟩)
    (hread : items.Pairwise fun other item => ∀ file line m m',
      other = .marked file line m → item = .marked file line m' → m = m')
    (hspares : Spares t root s.path (items.flatMap Item.names)) :
    List.Forall₂ (Lasts root s'.data t') items events := by
  induction items generalizing s t events with
  | nil =>
    cases h
    exact .nil
  | cons item rest ih =>
    obtain ⟨t₁, s₁, event, later, hfirst, hrest, rfl⟩ := handleAll_cons_eq_ok h
    obtain ⟨hreadFirst, hreadRest⟩ := List.pairwise_cons.mp hread
    obtain ⟨hpath, hkeeps⟩ := handle_keeps hfirst
    have hspares' : Spares t₁ root s₁.path ((item :: rest).flatMap Item.names) := by
      rw [hpath]
      exact hspares.kept hkeeps
    rw [List.flatMap_cons] at hspares'
    have hitem : Spares t₁ root s₁.path item.names := hspares'.mono (List.subset_append_left _ _)
    have hlater : Spares t₁ root s₁.path (rest.flatMap Item.names) :=
      hspares'.mono (List.subset_append_right _ _)
    exact .cons (lasts_handleAll (lasts_of_handle hfirst) hrest hreadFirst hitem)
      (ih hrest hreadRest hlater)

theorem lasts_of_found {files : List String}
    (h : handleAll today root s t (found t root files).1 = ⟨t', s', .ok events⟩)
    (hspares : Spares t root s.path ((found t root files).1.flatMap Item.names)) :
    List.Forall₂ (Lasts root s'.data t') (found t root files).1 events := by
  refine lasts_of_handleAll h (List.pairwise_of_forall_mem_list fun other hother item hitem => ?_)
    hspares
  rintro file line m m' rfl rfl
  exact (read_of_mem_found hother).marker_eq (read_of_mem_found hitem)

/-- What is done about an item that is settled. -/
def Event.again : Event → Event
  | .added e => .skipped e.location
  | event => event

/-- The location of a line that is covered now. -/
def Event.settled? : Event → Option String
  | .added e => some e.location
  | .skipped location => some location
  | .failed _ => none

theorem handle_of_lasts {again : Store} (h : Lasts root l t item event)
    (hagain : again.data.entries = l.entries) :
    handle day root again t item = ⟨t, again, .ok event.again⟩ := by
  have hcovered : ∀ file line m, isCovered again.data file line m = isCovered l file line m := by
    intro file line m
    rw [isCovered, isCovered, Ledger.find?, Ledger.find?, hagain]
  cases h with
  | unreadable file cause => rfl
  | skipped h => exact handle_of_covered (by rw [hcovered, h])
  | @added file line m e hheld hunfit hplace =>
    have hcover : isCovered l file line m = true :=
      isCovered_of_place (List.mem_of_find?_eq_some hheld) hunfit hplace
    have hlocation : e.location = locationOf file line := by
      simp only [Entry.place, Prod.mk.injEq] at hplace
      obtain ⟨rfl, rfl, -⟩ := hplace
      rfl
    rw [handle_of_covered (by rw [hcovered, hcover]), Event.again, hlocation]
  | failed huncovered hrefused =>
    have hmore : again.data.entries = l.entries ++ [] := by rw [List.append_nil, hagain]
    exact handle_of_refused (by rw [hcovered, huncovered]) (hrefused.mono hmore fun _ _ => rfl)

theorem handleAll_of_lasts {items : List Item} {again : Store}
    (h : List.Forall₂ (Lasts root l t) items events) (hagain : again.data.entries = l.entries) :
    handleAll day root again t items = ⟨t, again, .ok (events.map Event.again)⟩ := by
  induction h with
  | nil => rfl
  | cons hfirst _ ih =>
    rw [handleAll_cons_of_ok (handle_of_lasts hfirst hagain), ih]
    rfl

theorem ofEvents_again (events : List Event) :
    SyncResult.ofEvents (events.map Event.again) =
      { added := [], skipped := events.filterMap Event.settled?,
        errors := (SyncResult.ofEvents events).errors } := by
  unfold SyncResult.ofEvents
  have hadded : (events.map Event.again).filterMap Event.id? = [] := by
    rw [List.filterMap_map, List.filterMap_eq_nil_iff]
    intro event _
    cases event <;> rfl
  have hskipped : Event.skipped? ∘ Event.again = Event.settled? := by
    funext event
    cases event <;> rfl
  have herrors : Event.message? ∘ Event.again = Event.message? := by
    funext event
    cases event <;> rfl
  rw [hadded, List.filterMap_map, hskipped, List.filterMap_map, herrors]

/-- A walk that returns settles every item it comes upon.  A walk over the same files after it, on
any day and with the same entries, in memory or read back, adds and writes nothing, notes the same
errors in the same order, and passes over the lines that the first walk added or passed over.  The
ledger's own file, its neighbour and the directories made for them are not among the files that are
listed or named by markers. -/
theorem second_sync_changes_nothing {files : List String} {r : SyncResult}
    (hspares : Spares t root s.path (files ++ (found t root files).1.flatMap Item.names))
    (h : sync s t today root files = ⟨t', s', .ok r⟩) :
    ∃ events, List.Forall₂ (Lasts root s'.data t') (found t root files).1 events ∧
      r = .ofEvents events ∧
      ∀ again : Store, again.path = s.path → again.data.entries = s'.data.entries → ∀ day,
        sync again t' day root files =
          ⟨t', again, .ok { added := [], skipped := events.filterMap Event.settled?,
                            errors := r.errors }⟩ := by
  have hlisted : Spares t root s.path files := hspares.mono (List.subset_append_left _ _)
  have hnamed : Spares t root s.path ((found t root files).1.flatMap Item.names) :=
    hspares.mono (List.subset_append_right _ _)
  obtain ⟨hend, events, hevents, rfl⟩ := (sync_eq_ok_iff hlisted).mp h
  have hlasts := lasts_of_found hevents hnamed
  refine ⟨events, hlasts, rfl, fun again hpath hagain day => ?_⟩
  obtain ⟨-, hkeeps⟩ := handleAll_keeps hevents
  have hsame : found t' root files = found t root files :=
    found_congr fun _ hname => hlisted.sourceLines hkeeps hname
  have hspares' : Spares t' root again.path files := by
    rw [hpath]
    exact hlisted.kept hkeeps
  rw [← ofEvents_again, sync_eq_ok_iff hspares', hsame]
  exact ⟨hend, _, handleAll_of_lasts hlasts hagain, rfl⟩

/-- A project with a marker that can be approved and one that gives no reason. -/
def markedProject : Tree :=
  ⟨[(["p"], .dir),
    (["p", "a.js"], .file ("// @validation-ignore null-access\n// @reason: checked\nx.y;\n" ++
      "// @validation-ignore null-access\nx.z;\n").toUTF8)]⟩

/-- A walk that comes upon one file twice and upon one that is missing. -/
def markedWalk : Outcome SyncResult :=
  sync (Operation.emptyLedger "l.json") markedProject "2025-03-04" sampleRoot
    ["a.js", "b.js", "a.js"]

theorem second_sync_changes_nothing_sample :
    ∃ t' s' r events, markedWalk = ⟨t', s', .ok r⟩ ∧ r = .ofEvents events ∧
      r.added = ["null-access-001"] ∧ r.skipped = ["a.js:3"] ∧ r.errors.length = 3 ∧
      sync s' t' "2025-03-05" sampleRoot ["a.js", "b.js", "a.js"] =
        ⟨t', s', .ok { added := [], skipped := events.filterMap Event.settled?,
                       errors := r.errors }⟩ := by
  obtain ⟨hspares, hpath, hdone⟩ : Spares markedProject sampleRoot
      (Operation.emptyLedger "l.json").path (["a.js", "b.js", "a.js"] ++
        (found markedProject sampleRoot ["a.js", "b.js", "a.js"]).1.flatMap Item.names) ∧
      markedWalk.store.path = (Operation.emptyLedger "l.json").path ∧
      markedWalk.result.toOption.map (fun r => (r.added, r.skipped, r.errors.length)) =
        some (["null-access-001"], ["a.js:3"], 3) := by
    unfold Spares
    decide +kernel
  rcases hwalk : markedWalk with ⟨t', s', e | r⟩
  · rw [hwalk] at hdone
    cases hdone
  · rw [hwalk] at hpath hdone
    simp only [Except.toOption, Option.map_some, Option.some_inj, Prod.mk.injEq] at hdone
    obtain ⟨hadded, hskipped, herrors⟩ := hdone
    obtain ⟨events, -, hevents, hagain⟩ := second_sync_changes_nothing hspares hwalk
    exact ⟨t', s', r, events, rfl, hevents, hadded, hskipped, herrors,
      hagain s' hpath rfl "2025-03-05"⟩

end NullAccess.Approval
