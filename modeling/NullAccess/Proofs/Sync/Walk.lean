import NullAccess.Proofs.Drift.Snapshot
import NullAccess.Proofs.Ledger.Identity
import NullAccess.Proofs.Marker.Discovery

/-!
# Walks over markers

A walk over files reads them one by one, approves the marked lines that it finds, and writes the
ledger after each.  Here it is taken apart.  What a walk comes upon is decided by the files alone
(`found`), and each such item is handled by itself and comes to one event (`handle`).  As long as
the ledger is not among the files, a walk is no more than that: `sync_eq`.

`handle_eq_ok` says once what handling an item can do, so later proofs go by its cases.
-/

namespace NullAccess.Approval

open Store Validator

/-! ## Items and events -/

/-- What a walk comes upon: a file that cannot be read, or a marked line. -/
inductive Item where
  | unreadable (file : String) (cause : Cause)
  | marked (file : String) (line : Int) (m : ConsumerMarker)

/-- What a walk does about an item. -/
inductive Event where
  | added (e : Entry)
  | skipped (location : String)
  | failed (message : String)

namespace Event

def id? : Event → Option String
  | added e => some e.id
  | _ => none

def skipped? : Event → Option String
  | skipped location => some location
  | _ => none

def message? : Event → Option String
  | failed message => some message
  | _ => none

end Event

/-- The result of a walk with one more event. -/
def SyncResult.record (r : SyncResult) : Event → SyncResult
  | .added e => { r with added := r.added ++ [e.id] }
  | .skipped location => { r with skipped := r.skipped ++ [location] }
  | .failed message => { r with errors := r.errors ++ [message] }

/-- The result of a walk, from its events. -/
def SyncResult.ofEvents (events : List Event) : SyncResult :=
  { added := events.filterMap Event.id?, skipped := events.filterMap Event.skipped?,
    errors := events.filterMap Event.message? }

theorem SyncResult.foldl_record (events : List Event) (r : SyncResult) :
    events.foldl record r =
      { added := r.added ++ events.filterMap Event.id?,
        skipped := r.skipped ++ events.filterMap Event.skipped?,
        errors := r.errors ++ events.filterMap Event.message? } := by
  induction events generalizing r with
  | nil => simp
  | cons event rest ih =>
    rw [List.foldl_cons, ih]
    cases event <;> simp [record, List.filterMap_cons, Event.id?, Event.skipped?, Event.message?]

theorem SyncResult.foldl_record_empty (events : List Event) :
    events.foldl record {} = ofEvents events := by
  rw [foldl_record]
  rfl

/-- The file of a function that a marker in `file` names. -/
def targetOf (file : String) (ref : DependencyRef) : String :=
  (ref.file.filter (!·.isEmpty)).getD file

/-- The files that an item names. -/
def Item.names : Item → List String
  | .unreadable file _ => [file]
  | .marked file _ m => file :: m.dependencies.map (targetOf file)

/-! ## What a walk comes upon -/

section

variable (t : Tree) (root : Path)

/-- The items of a file.  A name that no file can have, and a marker with a number that is too long,
end the walk. -/
@[irreducible]
def itemsOf (file : String) : Except Stop (List Item) :=
  match t.sourceLines (pathOf root file) with
  | .error e => if e.cause.isRefusal then .ok [.unreadable file e.cause] else .error (.file e)
  | .ok lines =>
    match Marker.findAll lines with
    | .error f => .error (.fault f)
    | .ok marked => .ok (marked.map fun found => .marked file found.1 found.2)

/-- The items of files in order, up to the first file that ends the walk. -/
def found : List String → List Item × Except Stop Unit
  | [] => ([], .ok ())
  | file :: rest =>
    match itemsOf t root file with
    | .error stop => ([], .error stop)
    | .ok items => (items ++ (found rest).1, (found rest).2)

end

/-! ## Handling items -/

/-- What a marker asks to approve. -/
def requestOf (file : String) (line : Int) (m : ConsumerMarker) (reason : String) : Request :=
  { file, line, reason, category := m.category.getD nullAccessCategory,
    dependencies := m.dependencies, id := m.whitelistId.getD "" }

/-- Whether the ledger holds an entry for a marked line. -/
def isCovered (l : Ledger) (file : String) (line : Int) (m : ConsumerMarker) : Bool :=
  (l.find? file line (some (m.category.getD nullAccessCategory))).isSome

/-- A marked line as it is named in results. -/
def locationOf (file : String) (line : Int) : String := s!"{file}:{line}"

/-- What is noted of a marked line that is not approved. -/
def complaint (file : String) (line : Int) (why : String) : String :=
  locationOf file line ++ (": " ++ why)

/-- One item handled; an error is one that ends the walk. -/
def handle (today : String) (root : Path) (s : Store) (t : Tree) : Item → Outcome Event
  | .unreadable file cause => ⟨t, s, .ok (.failed (LedgerError.unreadable file cause).message)⟩
  | .marked file line m =>
    if isCovered s.data file line m then ⟨t, s, .ok (.skipped (locationOf file line))⟩
    else
      match m.reason.filter (!·.isEmpty) with
      | none => ⟨t, s, .ok (.failed (complaint file line "marker has no @reason"))⟩
      | some reason =>
        match approve s t today root (requestOf file line m reason) with
        | ⟨t', s', .ok entry⟩ => ⟨t', s', .ok (.added entry)⟩
        | ⟨t', s', .error e⟩ =>
          if endsSync e then ⟨t', s', .error e⟩
          else ⟨t', s', .ok (.failed (complaint file line e.message))⟩

/-- Items handled in order. -/
def handleAll (today : String) (root : Path) (s : Store) (t : Tree) :
    List Item → Outcome (List Event)
  | [] => ⟨t, s, .ok []⟩
  | item :: rest =>
    match handle today root s t item with
    | ⟨t', s', .error e⟩ => ⟨t', s', .error e⟩
    | ⟨t', s', .ok event⟩ => (handleAll today root s' t' rest).map (event :: ·)

variable {s s' : Store} {t t' : Tree} {today : String} {root : Path} {file : String} {line : Int}
  {m : ConsumerMarker} {item : Item} {event : Event} {events : List Event} {e : LedgerError}

theorem handleAll_cons_of_ok {rest : List Item}
    (h : handle today root s t item = ⟨t', s', .ok event⟩) :
    handleAll today root s t (item :: rest) =
      (handleAll today root s' t' rest).map (event :: ·) := by
  rw [handleAll, h]

theorem handleAll_cons_of_error {rest : List Item}
    (h : handle today root s t item = ⟨t', s', .error e⟩) :
    handleAll today root s t (item :: rest) = ⟨t', s', .error e⟩ := by
  rw [handleAll, h]

theorem handleAll_cons_eq_ok {rest : List Item}
    (h : handleAll today root s t (item :: rest) = ⟨t', s', .ok events⟩) :
    ∃ t₁ s₁ event later, handle today root s t item = ⟨t₁, s₁, .ok event⟩ ∧
      handleAll today root s₁ t₁ rest = ⟨t', s', .ok later⟩ ∧ events = event :: later := by
  rcases hfirst : handle today root s t item with ⟨t₁, s₁, e | event⟩
  · rw [handleAll_cons_of_error hfirst] at h
    cases h
  · rw [handleAll_cons_of_ok hfirst] at h
    rcases hrest : handleAll today root s₁ t₁ rest with ⟨t₂, s₂, e | later⟩
    · rw [hrest] at h
      cases h
    · rw [hrest] at h
      cases h
      exact ⟨t₁, s₁, event, later, rfl, hrest, rfl⟩

theorem handleAll_cons_eq_error {rest : List Item}
    (h : handleAll today root s t (item :: rest) = ⟨t', s', .error e⟩) :
    handle today root s t item = ⟨t', s', .error e⟩ ∨
      ∃ t₁ s₁ event, handle today root s t item = ⟨t₁, s₁, .ok event⟩ ∧
        handleAll today root s₁ t₁ rest = ⟨t', s', .error e⟩ := by
  rcases hfirst : handle today root s t item with ⟨t₁, s₁, e' | event⟩
  · rw [handleAll_cons_of_error hfirst] at h
    cases h
    exact .inl rfl
  · rw [handleAll_cons_of_ok hfirst] at h
    rcases hrest : handleAll today root s₁ t₁ rest with ⟨t₂, s₂, e' | later⟩
    · rw [hrest] at h
      cases h
      exact .inr ⟨t₁, s₁, event, rfl, hrest⟩
    · rw [hrest] at h
      cases h

theorem handleAll_append_of_ok {items more : List Item}
    (h : handleAll today root s t items = ⟨t', s', .ok events⟩) :
    handleAll today root s t (items ++ more) =
      (handleAll today root s' t' more).map (events ++ ·) := by
  induction items generalizing s t events with
  | nil =>
    cases h
    rcases hmore : handleAll today root s' t' more with ⟨u, x, e | later⟩ <;>
      simp [hmore, Outcome.map, Except.map]
  | cons item rest ih =>
    obtain ⟨t₁, s₁, event, later, hfirst, hrest, rfl⟩ := handleAll_cons_eq_ok h
    rw [List.cons_append, handleAll_cons_of_ok hfirst, ih hrest]
    rcases handleAll today root s' t' more with ⟨u, x, e | last⟩ <;> rfl

theorem handleAll_append_of_error {items more : List Item}
    (h : handleAll today root s t items = ⟨t', s', .error e⟩) :
    handleAll today root s t (items ++ more) = ⟨t', s', .error e⟩ := by
  induction items generalizing s t with
  | nil => cases h
  | cons item rest ih =>
    rw [List.cons_append]
    rcases handleAll_cons_eq_error h with hfirst | ⟨t₁, s₁, event, hfirst, hrest⟩
    · exact handleAll_cons_of_error hfirst
    · rw [handleAll_cons_of_ok hfirst, ih hrest]
      rfl

/-! ## What handling an item can do -/

/-- A marked line whose approval is refused, and for what: the marker gives no reason, a snapshot
cannot be taken, or the id that the marker asks for is in use. -/
inductive Refused (root : Path) (l : Ledger) (t : Tree) (file : String) (line : Int)
    (m : ConsumerMarker) : String → Prop where
  | noReason (h : m.reason.filter (!·.isEmpty) = none) :
      Refused root l t file line m "marker has no @reason"
  | noSnapshot {reason : String} {e : LedgerError}
    (hreason : m.reason.filter (!·.isEmpty) = some reason)
      (h : ∀ day, entryFor t root day (requestOf file line m reason) = .error e)
      (he : endsSync e = false) : Refused root l t file line m e.message
  | idInUse {reason : String} (hreason : m.reason.filter (!·.isEmpty) = some reason)
      (h : ∀ day, ∃ entry, entryFor t root day (requestOf file line m reason) = .ok entry)
      (hid : (m.whitelistId.getD "").isEmpty = false)
      (hused : (l.entry? (m.whitelistId.getD "")).isSome = true) :
      Refused root l t file line m (LedgerError.duplicateId (m.whitelistId.getD "")).message

/-- The day of an approval has no part in whether the snapshots can be taken. -/
theorem entryFor_eq_error_iff {r : Request} :
    entryFor t root today r = .error e ↔
      approvedCode t root r.file r.line = .error e ∨
        (∃ code, approvedCode t root r.file r.line = .ok code) ∧
          snapshots t root r.file r.dependencies = .error e := by
  unfold entryFor
  cases approvedCode t root r.file r.line with
  | error e' => simp [bind, Except.bind]
  | ok code =>
    cases snapshots t root r.file r.dependencies <;>
      simp [bind, Except.bind, pure, Except.pure]

theorem entryFor_error_congr {r : Request} (h : entryFor t root today r = .error e) (day : String) :
    entryFor t root day r = .error e :=
  entryFor_eq_error_iff.mpr (entryFor_eq_error_iff.mp h)

theorem entryFor_ok_congr {r : Request} {entry : Entry} (h : entryFor t root today r = .ok entry)
    (day : String) : ∃ entry', entryFor t root day r = .ok entry' := by
  cases hday : entryFor t root day r with
  | ok entry' => exact ⟨entry', rfl⟩
  | error e =>
    rw [entryFor_error_congr hday today] at h
    cases h

theorem result_of_approve_eq_error {r : Request} {entry : Entry}
    (hentry : entryFor t root today r = .ok entry)
    (h : approve s t today root r = ⟨t', s', .error e⟩) :
    (s.add t today entry).result = .error e := by
  unfold approve at h
  rw [hentry] at h
  rcases hadd : s.add t today entry with ⟨u, x, e' | id⟩
  · simp only [hadd] at h
    cases h
    rfl
  · simp only [hadd] at h
    cases h

/-- An approval that is refused without ending a walk leaves all as it was, and is refused for want
of a snapshot or because its id is in use: the place was seen to be free. -/
theorem approve_eq_error {r : Request} (h : approve s t today root r = ⟨t', s', .error e⟩)
    (he : endsSync e = false) (hfree : s.data.find? r.file r.line (some r.category) = none) :
    t' = t ∧ s' = s ∧
      (entryFor t root today r = .error e ∨
        (∃ entry, entryFor t root today r = .ok entry) ∧ r.id.isEmpty = false ∧
          (s.data.entry? r.id).isSome = true ∧ e = .duplicateId r.id) := by
  have hperform : (Operation.approve root r).perform s t today = ⟨t', s', .error e⟩ := by
    rw [Operation.perform, h]
    rfl
  obtain ⟨rfl, rfl⟩ := eq_of_not_endsSync hperform he
  refine ⟨rfl, rfl, ?_⟩
  cases hentry : entryFor t' root today r with
  | error e' =>
    unfold approve at h
    rw [hentry] at h
    cases h
    exact .inl rfl
  | ok entry =>
    refine .inr ⟨⟨entry, rfl⟩, ?_⟩
    have hresult := result_of_approve_eq_error hentry h
    obtain ⟨code, dependencies, -, -, rfl⟩ := entryFor_eq_ok hentry
    cases hempty : r.id.isEmpty with
    | true =>
      -- An id that is made up is free, and so is the place, so the walk would have ended.
      exfalso
      have hid : r.id = "" := by simpa using hempty
      rcases add_refused hid hresult with ⟨-, rfl⟩ | ⟨other, hother, -⟩ | hends
      · cases he
      · rw [hfree] at hother
        cases hother
      · rw [hends] at he
        cases he
    | false =>
      unfold add withId at hresult
      simp only [hempty, Bool.false_and, Bool.false_eq_true, if_false, hfree] at hresult
      by_cases hused : (s'.data.entry? r.id).isSome = true
      · rw [if_pos hused] at hresult
        exact ⟨rfl, hused, (Except.error.inj hresult).symm⟩
      · rw [if_neg hused] at hresult
        rw [endsSync_of_commit hresult] at he
        cases he

theorem approve_of_refusal {r : Request} (h : entryFor t root today r = .error e) :
    approve s t today root r = ⟨t, s, .error e⟩ := by
  unfold approve
  rw [h]
  rfl

theorem approve_of_id_in_use {r : Request} {entry : Entry}
    (h : entryFor t root today r = .ok entry) (hid : r.id.isEmpty = false)
    (hused : (s.data.entry? r.id).isSome = true) :
    approve s t today root r = ⟨t, s, .error (.duplicateId r.id)⟩ := by
  obtain ⟨code, dependencies, -, -, rfl⟩ := entryFor_eq_ok h
  unfold approve
  rw [h]
  simp [add, withId, hid, hused, refuse]

theorem isCovered_eq_false_iff :
    isCovered s.data file line m = false ↔
      s.data.find? file line (some (m.category.getD nullAccessCategory)) = none := by
  simp [isCovered]

/-- How a marked line is handled when the walk goes on: it is passed over, refused or approved. -/
theorem handle_eq_ok (h : handle today root s t (.marked file line m) = ⟨t', s', .ok event⟩) :
    (isCovered s.data file line m = true ∧
      event = .skipped (locationOf file line) ∧ t' = t ∧ s' = s) ∨
    (isCovered s.data file line m = false ∧ t' = t ∧ s' = s ∧
      ∃ why, Refused root s.data t file line m why ∧ event = .failed (complaint file line why)) ∨
    (isCovered s.data file line m = false ∧
      ∃ reason entry, m.reason.filter (!·.isEmpty) = some reason ∧ event = .added entry ∧
        approve s t today root (requestOf file line m reason) = ⟨t', s', .ok entry⟩) := by
  rw [handle] at h
  cases hcovered : isCovered s.data file line m with
  | true =>
    rw [hcovered, if_pos rfl] at h
    cases h
    exact .inl ⟨rfl, rfl, rfl, rfl⟩
  | false =>
    rw [hcovered, if_neg Bool.false_ne_true] at h
    refine .inr ?_
    cases hreason : m.reason.filter (!·.isEmpty) with
    | none =>
      rw [hreason] at h
      cases h
      exact .inl ⟨rfl, rfl, rfl, _, .noReason hreason, rfl⟩
    | some reason =>
      rw [hreason] at h
      rcases happrove : approve s t today root (requestOf file line m reason) with ⟨u, x, e | entry⟩
      · simp only [happrove] at h
        cases he : endsSync e with
        | true =>
          rw [he, if_pos rfl] at h
          cases h
        | false =>
          rw [he, if_neg Bool.false_ne_true] at h
          cases h
          obtain ⟨rfl, rfl, hwhy⟩ :=
            approve_eq_error happrove he (isCovered_eq_false_iff.mp hcovered)
          refine .inl ⟨rfl, rfl, rfl, e.message, ?_, rfl⟩
          rcases hwhy with hentry | ⟨⟨entry, hentry⟩, hid, hused, rfl⟩
          · exact .noSnapshot hreason (entryFor_error_congr hentry) he
          · exact .idInUse hreason (entryFor_ok_congr hentry) hid hused
      · simp only [happrove] at h
        cases h
        exact .inr ⟨rfl, reason, entry, rfl, rfl, happrove⟩

theorem handle_of_covered (h : isCovered s.data file line m = true) :
    handle today root s t (.marked file line m) =
      ⟨t, s, .ok (.skipped (locationOf file line))⟩ := by
  rw [handle, if_pos h]

theorem handle_of_refused {why : String} (hcovered : isCovered s.data file line m = false)
    (h : Refused root s.data t file line m why) :
    handle today root s t (.marked file line m) =
      ⟨t, s, .ok (.failed (complaint file line why))⟩ := by
  have hnot : ¬ isCovered s.data file line m = true := by simp [hcovered]
  rw [handle, if_neg hnot]
  cases h with
  | noReason h => rw [h]
  | noSnapshot hreason h he =>
    simp only [hreason, approve_of_refusal (h today), he, Bool.false_eq_true, if_false]
  | idInUse hreason h hid hused =>
    obtain ⟨entry, hentry⟩ := h today
    simp only [hreason, approve_of_id_in_use hentry hid hused]
    rfl

/-! ## What handling keeps -/

/-- The ledger's path stays, and no other file is altered. -/
theorem handle_keeps (h : handle today root s t item = ⟨t', s', .ok event⟩) :
    s'.path = s.path ∧ Tree.Keeps (touched s.path) t t' := by
  cases item with
  | unreadable file cause =>
    cases h
    exact ⟨rfl, .refl _ _⟩
  | marked file line m =>
    rcases handle_eq_ok h with
      ⟨-, -, rfl, rfl⟩ | ⟨-, rfl, rfl, -⟩ | ⟨-, reason, entry, -, -, happrove⟩
    · exact ⟨rfl, .refl _ _⟩
    · exact ⟨rfl, .refl _ _⟩
    · obtain ⟨-, -, -, -, -, -, hwrote⟩ := approve_eq_ok happrove
      exact ⟨by rw [hwrote.store], replaceFile_keeps hwrote.replaced⟩

theorem handleAll_keeps {items : List Item}
    (h : handleAll today root s t items = ⟨t', s', .ok events⟩) :
    s'.path = s.path ∧ Tree.Keeps (touched s.path) t t' := by
  induction items generalizing s t events with
  | nil =>
    cases h
    exact ⟨rfl, .refl _ _⟩
  | cons item rest ih =>
    obtain ⟨t₁, s₁, event, later, hfirst, hrest, -⟩ := handleAll_cons_eq_ok h
    obtain ⟨hpath, hkeeps⟩ := handle_keeps hfirst
    obtain ⟨hpath', hkeeps'⟩ := ih hrest
    rw [hpath] at hpath' hkeeps'
    exact ⟨hpath', hkeeps.trans hkeeps'⟩

/-! ## The walk is its items, handled in order -/

/-- How a walk ends. -/
def ending : Progress × Except LedgerError Unit → Outcome SyncResult
  | (p, .ok ()) => ⟨p.tree, p.store, .ok p.done⟩
  | (p, .error e) => ⟨p.tree, p.store, .error e⟩

theorem readMarker_eq (p : Progress) :
    p.readMarker today root file line m =
      match handle today root p.store p.tree (.marked file line m) with
      | ⟨t, s, .ok event⟩ => (⟨t, s, p.done.record event⟩, .ok ())
      | ⟨t, s, .error e⟩ => (⟨t, s, p.done⟩, .error e) := by
  unfold Progress.readMarker handle isCovered
  dsimp only
  split
  · rfl
  · cases m.reason.filter (!·.isEmpty) with
    | none => rfl
    | some reason =>
      dsimp only [requestOf]
      rcases approve p.store p.tree today root _ with ⟨t, s, e | entry⟩
      · dsimp only
        split
        · rfl
        · have hmessage : toString (locationOf file line) ++ toString ": " ++ toString e.message =
              complaint file line e.message :=
            String.append_assoc
          dsimp only [SyncResult.record]
          rw [← hmessage]
          rfl
      · rfl

theorem ending_readMarkers (p : Progress) (marked : List (Int × ConsumerMarker)) :
    ending (p.readMarkers today root file marked) =
      (handleAll today root p.store p.tree
        (marked.map fun found => .marked file found.1 found.2)).map
        fun events => events.foldl SyncResult.record p.done := by
  induction marked generalizing p with
  | nil => rfl
  | cons first rest ih =>
    obtain ⟨line, m⟩ := first
    rw [Progress.readMarkers, readMarker_eq, List.map_cons, handleAll]
    rcases handle today root p.store p.tree (.marked file line m) with ⟨t₁, s₁, e | event⟩
    · rfl
    · dsimp only
      rw [ih]
      dsimp only
      rcases handleAll today root s₁ t₁ _ with ⟨t₂, s₂, e | events⟩ <;> rfl

theorem readMarkers_of_handleAll {p : Progress} {marked : List (Int × ConsumerMarker)}
    (h : handleAll today root p.store p.tree
      (marked.map fun found => .marked file found.1 found.2) =
      ⟨t', s', .ok events⟩) :
    p.readMarkers today root file marked =
      (⟨t', s', events.foldl SyncResult.record p.done⟩, .ok ()) := by
  have hending : ending (p.readMarkers today root file marked) = _ := ending_readMarkers p marked
  rw [h] at hending
  rcases hread : p.readMarkers today root file marked with ⟨⟨u, x, done⟩, e | _⟩
  · rw [hread] at hending
    cases hending
  · rw [hread] at hending
    simp only [ending, Outcome.map, Except.map, Outcome.mk.injEq, Except.ok.injEq] at hending
    obtain ⟨rfl, rfl, rfl⟩ := hending
    rfl

/-- What becomes of a walk whose items were handled, and which may be ended by a file. -/
def concluded (o : Outcome (List Event)) (stop : Except Stop Unit) (done : SyncResult) :
    Outcome SyncResult :=
  ⟨o.tree, o.store,
    match o.result, stop with
    | .error e, _ => .error e
    | .ok _, .error stop => .error (.stopped stop)
    | .ok events, .ok () => .ok (events.foldl SyncResult.record done)⟩

theorem concluded_map (o : Outcome (List Event)) (stop : Except Stop Unit) (done : SyncResult)
    (before : List Event) :
    concluded (o.map (before ++ ·)) stop done =
      concluded o stop (before.foldl SyncResult.record done) := by
  rcases o with ⟨t, s, e | events⟩
  · rfl
  · cases stop with
    | error stop => rfl
    | ok _ => simp [concluded, Outcome.map, Except.map]

theorem ending_readFiles_cons {p : Progress} {rest : List String}
    (hsame : p.tree.sourceLines (pathOf root file) = t.sourceLines (pathOf root file)) :
    ending (p.readFiles today root (file :: rest)) =
      match itemsOf t root file with
      | .error stop => ⟨p.tree, p.store, .error (.stopped stop)⟩
      | .ok items =>
        match handleAll today root p.store p.tree items with
        | ⟨t', s', .error e⟩ => ⟨t', s', .error e⟩
        | ⟨t', s', .ok events⟩ =>
          ending (Progress.readFiles today root
            ⟨t', s', events.foldl SyncResult.record p.done⟩ rest) := by
  rw [Progress.readFiles_cons]
  unfold readLines itemsOf
  rw [hsame]
  cases t.sourceLines (pathOf root file) with
  | error f =>
    dsimp only [LedgerError.ofRead]
    split <;> rfl
  | ok lines =>
    dsimp only
    cases Marker.findAll lines with
    | error f => rfl
    | ok marked =>
      dsimp only
      rcases hitems : handleAll today root p.store p.tree
        (marked.map fun found => .marked file found.1 found.2) with ⟨t', s', e | events⟩
      · have hending : ending (p.readMarkers today root file marked) = _ :=
          ending_readMarkers p marked
        rw [hitems] at hending
        rcases hread : p.readMarkers today root file marked with ⟨p', e' | _⟩
        · rw [hread] at hending
          rw [hitems]
          exact hending
        · rw [hread] at hending
          cases hending
      · rw [readMarkers_of_handleAll hitems, hitems]

/-- The files that a walk comes upon later are as they were when it began. -/
theorem ending_readFiles {path : Path} {files : List String} (hspares : Spares t root path files)
    {p : Progress} (hpath : p.store.path = path) (hkeeps : Tree.Keeps (touched path) t p.tree) :
    ending (p.readFiles today root files) =
      concluded (handleAll today root p.store p.tree (found t root files).1) (found t root files).2
        p.done := by
  induction files generalizing p with
  | nil => exact rfl
  | cons file rest ih =>
    have hrest : Spares t root path rest := fun name hname =>
      hspares name (List.mem_cons_of_mem file hname)
    rw [ending_readFiles_cons (hspares.sourceLines hkeeps List.mem_cons_self)]
    unfold found
    cases itemsOf t root file with
    | error stop => rfl
    | ok items =>
      dsimp only
      rcases hitems : handleAll today root p.store p.tree items with ⟨t', s', e | events⟩
      · rw [handleAll_append_of_error hitems]
        rfl
      · obtain ⟨hpath', hkeeps'⟩ := handleAll_keeps hitems
        rw [hpath] at hpath' hkeeps'
        rw [handleAll_append_of_ok hitems, concluded_map]
        exact ih hrest hpath' (hkeeps.trans hkeeps')

/-- A walk handles what it comes upon, in order, and comes to an end with it. -/
theorem sync_eq {files : List String} (hspares : Spares t root s.path files) :
    sync s t today root files =
      concluded (handleAll today root s t (found t root files).1) (found t root files).2 {} := by
  have hending : ending (Progress.readFiles today root { tree := t, store := s } files) = _ :=
    ending_readFiles hspares rfl (.refl _ _)
  rw [← hending, sync]
  rcases Progress.readFiles today root { tree := t, store := s } files with ⟨p, e | _⟩ <;> rfl

/-- A walk that comes to its end comes upon no file that ends it, and returns its events. -/
theorem sync_eq_ok_iff {files : List String} {r : SyncResult}
    (hspares : Spares t root s.path files) :
    sync s t today root files = ⟨t', s', .ok r⟩ ↔
      (found t root files).2 = .ok () ∧
        ∃ events, handleAll today root s t (found t root files).1 = ⟨t', s', .ok events⟩ ∧
          r = .ofEvents events := by
  rw [sync_eq hspares]
  rcases handleAll today root s t (found t root files).1 with ⟨u, x, e | events⟩
  · simp [concluded]
  · cases (found t root files).2 with
    | error stop => simp [concluded]
    | ok _ =>
      dsimp only [concluded]
      rw [SyncResult.foldl_record_empty]
      constructor
      · intro h
        cases h
        exact ⟨rfl, events, rfl, rfl⟩
      · rintro ⟨-, _, h, rfl⟩
        cases h
        rfl

end NullAccess.Approval
