import NullAccess.Proofs.Ledger.Approve
import NullAccess.Proofs.Ledger.Codec

/-!
# Ledger operations

Eight operations change a ledger, and all in one way.  An operation first looks at the ledger and
the files and comes to an edit, or is refused (`Operation.plan`); then the edited ledger is written
(`Operation.perform_eq`).  So what an operation can do to a ledger is said by five edits, and a
property that every edit keeps is kept by every operation (`Operation.kept_perform`).
-/

namespace NullAccess

open Store

/-! ## Edits -/

/-- A change of a ledger. -/
inductive Edit where
  | append (e : Entry)
  | replace (id : String) (e : Entry)
  | drop (id : String)
  | setFramework (name : String) (p : FrameworkPattern)
  | dropFramework (name : String)

namespace Edit

/-- The ledger after an edit. -/
def apply (l : Ledger) : Edit → Ledger
  | append e => { l with entries := l.entries ++ [e] }
  | replace id e => { l with entries := Ledger.modifyEntry id (fun _ => e) l.entries }
  | drop id => { l with entries := Ledger.removeEntry id l.entries }
  | setFramework name p => { l with frameworks := Ledger.setFramework name p l.frameworks }
  | dropFramework name => { l with frameworks := l.frameworks.filter (·.1 != name) }

/-- Whether the values of a new entry fit their fields. -/
def Fits : Edit → Prop
  | append e => e.unfit = []
  | replace _ e => e.unfit = []
  | _ => True

end Edit

/-! ## Operations -/

/-- An operation on a ledger, with its arguments. -/
inductive Operation where
  | add (entry : Entry)
  | update (id : String) (changes : List Change)
  | remove (id : String)
  | addFramework (name : String) (signatures : List (List String)) (description : String)
      (stats : FrameworkStats) (verifiedBy : String)
  | setEnabled (name : String) (enabled : Bool)
  | removeFramework (name : String)
  | approve (root : Path) (request : Approval.Request)
  | reapprove (root : Path) (id : String)

/-- The outcome with another result. -/
def Outcome.map {α β : Type} (f : α → β) (o : Outcome α) : Outcome β :=
  ⟨o.tree, o.store, o.result.map f⟩

namespace Operation

variable {s : Store} {t : Tree} {today : String} {edit : Edit}

/-- The operation as the program performs it; the result says whether there was anything to
write. -/
def perform (s : Store) (t : Tree) (today : String) : Operation → Outcome Bool
  | add entry => (s.add t today entry).map fun _ => true
  | update id changes => (s.update t today id changes).map fun _ => true
  | remove id => s.remove t today id
  | addFramework name signatures description stats verifiedBy =>
    (s.addFramework t today name signatures description stats verifiedBy).map fun _ => true
  | setEnabled name enabled => (s.setEnabled t today name enabled).map fun _ => true
  | removeFramework name => s.removeFramework t today name
  | approve root request => (Approval.approve s t today root request).map fun _ => true
  | reapprove root id => (Approval.reapprove s t today root id).map fun _ => true

/-- The edit that adds an entry, if its id and its location are free. -/
def planAdd (s : Store) (entry : Entry) : Except LedgerError (Option Edit) :=
  if entry.id.isEmpty && !s.data.isNumbered entry.category then
    .error (.stopped (.fault .longNumeral))
  else
    let e := s.withId entry
    if (s.data.entry? e.id).isSome then .error (.duplicateId e.id)
    else
      match s.data.find? e.file e.line (some e.category) with
      | some other => .error (.duplicateLocation e.location other.id)
      | none => .ok (some (.append e))

/-- The edit that changes fields of an entry, if it is there and the fields can be changed. -/
def planUpdate (s : Store) (id : String) (changes : List Change) :
    Except LedgerError (Option Edit) :=
  match s.data.entry? id with
  | none => .error (.unknownEntry id)
  | some e =>
    match changes.findSome? Change.locked? with
    | some name => .error (.lockedField name)
    | none => .ok (some (.replace id (changes.foldl Change.apply e)))

/-- The edit that takes the snapshots of an entry anew, if they can be taken. -/
def planReapprove (s : Store) (t : Tree) (root : Path) (id : String) :
    Except LedgerError (Option Edit) :=
  match s.data.entry? id with
  | none => .error (.nothingToReapprove id)
  | some e =>
    let refs := e.dependencies.map fun d =>
      ({ function := d.targetFunction, line := d.targetLine, file := some d.targetFile } :
        DependencyRef)
    match Approval.currentCode t root e with
    | .error err => .error err
    | .ok code =>
      match Approval.snapshots t root e.file refs with
      | .error err => .error err
      | .ok dependencies =>
        planUpdate s id [.approvedCodeSnapshot code, .dependencies dependencies]

/-- What an operation comes to before it writes: an edit, nothing to do, or a refusal. -/
def plan (s : Store) (t : Tree) (today : String) : Operation → Except LedgerError (Option Edit)
  | add entry => planAdd s entry
  | update id changes => planUpdate s id changes
  | remove id => .ok ((s.data.entry? id).map fun _ => .drop id)
  | addFramework name signatures description stats verifiedBy =>
    .ok (some (.setFramework name
      { id := s!"framework-{name}-001", signatures, description, verifiedDate := today,
        verifiedBy, stats }))
  | setEnabled name enabled =>
    match s.data.framework? name with
    | none => .error (.unknownFramework name)
    | some p => .ok (some (.setFramework name { p with enabled }))
  | removeFramework name => .ok ((s.data.framework? name).map fun _ => .dropFramework name)
  | approve root request =>
    match Approval.entryFor t root today request with
    | .error e => .error e
    | .ok entry => planAdd s entry
  | reapprove root id => planReapprove s t root id

/-- Writes what was planned. -/
def execute (s : Store) (t : Tree) (today : String) :
    Except LedgerError (Option Edit) → Outcome Bool
  | .error e => s.refuse t e
  | .ok none => ⟨t, s, .ok false⟩
  | .ok (some edit) => s.commit t today (edit.apply s.data) true

theorem commit_map {α β : Type} (f : α → β) (s : Store) (t : Tree) (today : String) (data : Ledger)
    (result : α) : (s.commit t today data result).map f = s.commit t today data (f result) := by
  unfold commit
  obtain ⟨u, x, r, hsave⟩ : ∃ u x r, Store.save { s with data } t today = ⟨u, x, r⟩ :=
    ⟨_, _, _, rfl⟩
  rw [hsave]
  cases r <;> rfl

theorem add_eq (s : Store) (t : Tree) (today : String) (entry : Entry) :
    (s.add t today entry).map (fun _ => true) = execute s t today (planAdd s entry) := by
  unfold Store.add planAdd
  split
  · rfl
  · dsimp only
    split
    · rfl
    · cases s.data.find? (s.withId entry).file (s.withId entry).line
        (some (s.withId entry).category) with
      | some other => rfl
      | none => exact commit_map _ s t today _ _

theorem update_eq (s : Store) (t : Tree) (today : String) (id : String) (changes : List Change) :
    (s.update t today id changes).map (fun _ => true) =
      execute s t today (planUpdate s id changes) := by
  unfold Store.update planUpdate
  cases s.data.entry? id with
  | none => rfl
  | some e =>
    cases changes.findSome? Change.locked? with
    | some name => rfl
    | none => exact commit_map _ s t today _ _

theorem approve_eq (s : Store) (t : Tree) (today : String) (root : Path) (r : Approval.Request) :
    (Approval.approve s t today root r).map (fun _ => true) =
      execute s t today ((approve root r).plan s t today) := by
  dsimp only [Approval.approve, plan]
  cases Approval.entryFor t root today r with
  | error e => rfl
  | ok entry =>
    dsimp only
    rw [← add_eq]
    obtain ⟨u, x, result, hadd⟩ : ∃ u x result, s.add t today entry = ⟨u, x, result⟩ :=
      ⟨_, _, _, rfl⟩
    rw [hadd]
    cases result <;> rfl

theorem reapprove_eq (s : Store) (t : Tree) (today : String) (root : Path) (id : String) :
    (Approval.reapprove s t today root id).map (fun _ => true) =
      execute s t today (planReapprove s t root id) := by
  unfold Approval.reapprove planReapprove
  cases s.data.entry? id with
  | none => rfl
  | some e =>
    dsimp only
    cases Approval.currentCode t root e with
    | error err => rfl
    | ok code =>
      dsimp only
      cases Approval.snapshots t root e.file _ with
      | error err => rfl
      | ok dependencies => exact update_eq s t today id _

/-- Every operation writes what it planned. -/
theorem perform_eq (op : Operation) (s : Store) (t : Tree) (today : String) :
    op.perform s t today = execute s t today (op.plan s t today) := by
  cases op with
  | add entry => exact add_eq s t today entry
  | update id changes => exact update_eq s t today id changes
  | remove id =>
    dsimp only [perform, plan, Store.remove]
    cases s.data.entry? id <;> rfl
  | addFramework name signatures description stats verifiedBy =>
    exact commit_map _ s t today _ _
  | setEnabled name enabled =>
    dsimp only [perform, plan, Store.setEnabled]
    cases s.data.framework? name with
    | none => rfl
    | some p => exact commit_map _ s t today _ _
  | removeFramework name =>
    dsimp only [perform, plan, Store.removeFramework]
    cases s.data.framework? name <;> rfl
  | approve root request => exact approve_eq s t today root request
  | reapprove root id => exact reapprove_eq s t today root id

end Operation

/-! ## What every edit keeps -/

namespace Ledger

variable {l : Ledger}

theorem setFramework_eq_alter (name : String) (p : FrameworkPattern)
    (fs : List (String × FrameworkPattern)) :
    setFramework name p fs = Named.alter name (fun _ => p) fs := by
  induction fs with
  | nil => rfl
  | cons f rest ih => rw [setFramework, Named.alter, ih]

theorem mem_modifyEntry {id : String} {f : Entry → Entry} {es : List Entry} {e : Entry}
    (h : e ∈ modifyEntry id f es) : (∃ a ∈ es, e = f a) ∨ e ∈ es := by
  induction es with
  | nil => cases h
  | cons a rest ih =>
    rw [modifyEntry] at h
    split at h
    · rcases List.mem_cons.mp h with rfl | hrest
      · exact .inl ⟨a, List.mem_cons_self, rfl⟩
      · exact .inr (List.mem_cons_of_mem a hrest)
    · rcases List.mem_cons.mp h with rfl | hrest
      · exact .inr List.mem_cons_self
      · rcases ih hrest with ⟨b, hb, heq⟩ | hmem
        · exact .inl ⟨b, List.mem_cons_of_mem a hb, heq⟩
        · exact .inr (List.mem_cons_of_mem a hmem)

theorem mem_of_mem_removeEntry {id : String} {es : List Entry} {e : Entry}
    (h : e ∈ removeEntry id es) : e ∈ es := by
  induction es with
  | nil => cases h
  | cons a rest ih =>
    rw [removeEntry] at h
    split at h
    · exact List.mem_cons_of_mem a h
    · rcases List.mem_cons.mp h with rfl | hrest
      · exact List.mem_cons_self
      · exact List.mem_cons_of_mem a (ih hrest)

theorem WellKept.apply (h : l.WellKept) {edit : Edit} (hedit : edit.Fits) :
    (edit.apply l).WellKept := by
  cases edit with
  | append e =>
    refine ⟨fun a ha => ?_, h.names⟩
    rcases List.mem_append.mp ha with hmem | hlast
    · exact h.fit a hmem
    · rw [List.mem_singleton.mp hlast]
      exact hedit
  | replace id e =>
    refine ⟨fun a ha => ?_, h.names⟩
    rcases mem_modifyEntry ha with ⟨-, -, rfl⟩ | hmem
    · exact hedit
    · exact h.fit a hmem
  | drop id => exact ⟨fun a ha => h.fit a (mem_of_mem_removeEntry ha), h.names⟩
  | setFramework name p =>
    refine ⟨h.fit, ?_⟩
    rw [Edit.apply, setFramework_eq_alter]
    exact Named.nodup_alter h.names
  | dropFramework name => exact ⟨h.fit, h.names.sublist (List.filter_sublist.map Prod.fst)⟩

end Ledger

namespace Store

variable {s : Store} {data : Ledger} {path : Path}

/-- What is in memory after a ledger was to be saved: it, or it with counts and date. -/
theorem save_store (s : Store) (t : Tree) (today : String) :
    (s.save t today).store = s ∨
      (s.save t today).store = { s with data := s.data.stamped today } := by
  unfold save
  split
  · exact .inl rfl
  · dsimp only
    split
    · exact .inr rfl
    · exact .inr rfl

/-- A well-kept ledger in memory, with the path of its file. -/
structure Kept (path : Path) (s : Store) : Prop where
  path_eq : s.path = path
  wellKept : s.data.WellKept

theorem kept_save (h : s.Kept path) (t : Tree) (today : String) :
    (s.save t today).store.Kept path := by
  rcases save_store s t today with hstore | hstore
  · rwa [hstore]
  · rw [hstore]
    exact ⟨h.path_eq, h.wellKept.fit, h.wellKept.names⟩

theorem commit_store {α : Type} (s : Store) (t : Tree) (today : String) (data : Ledger)
    (result : α) :
    (s.commit t today data result).store = s ∨
      (s.commit t today data result).store = (Store.save { s with data } t today).store := by
  unfold commit
  obtain ⟨u, x, r, hsave⟩ : ∃ u x r, Store.save { s with data } t today = ⟨u, x, r⟩ :=
    ⟨_, _, _, rfl⟩
  rw [hsave]
  cases r with
  | ok _ => exact .inr rfl
  | error e =>
    dsimp only
    split
    · exact .inl rfl
    · exact .inr rfl

theorem kept_commit {α : Type} (h : s.Kept path) (hdata : data.WellKept) (t : Tree)
    (today : String) (result : α) : (s.commit t today data result).store.Kept path := by
  rcases commit_store s t today data result with hstore | hstore
  · rwa [hstore]
  · rw [hstore]
    exact kept_save (s := { s with data }) ⟨h.path_eq, hdata⟩ t today

/-! ## Writes that fail -/

/-- The only errors of a write are the system's and a path without a last name. -/
theorem replaceFile_eq_error {t t' : Tree} {path : Path} {text : String} {e : LedgerError}
    (h : replaceFile t path text = (t', .error e)) :
    path.parts = [] ∧ e = .stopped .noName ∨ ∃ f, e = .ofWrite path f := by
  unfold replaceFile at h
  split at h
  · cases h
    exact .inr ⟨_, rfl⟩
  · split at h
    · rename_i hparts
      cases h
      exact .inl ⟨List.isEmpty_iff.mp hparts, rfl⟩
    · split at h
      · cases h
        exact .inr ⟨_, rfl⟩
      · split at h
        · cases h
          exact .inr ⟨_, rfl⟩
        · cases h

/-- How saving a ledger fails: an entry cannot be counted, a number cannot be written, or the file
cannot be replaced. -/
theorem save_eq_error {s s' : Store} {t t' : Tree} {today : String} {e : LedgerError}
    (h : s.save t today = ⟨t', s', .error e⟩) :
    s.data.isCountable = false ∧ t' = t ∧ s' = s ∧ e = .stopped (.fault .notCountable) ∨
    s.data.isCountable = true ∧ s' = { s with data := s.data.stamped today } ∧
      ((s.data.stamped today).toJson.isWritable = false ∧ t' = t ∧
          e = .stopped (.fault .longNumeral) ∨
        replaceFile t s.path (s.data.stamped today).toJson.canonical = (t', .error e)) := by
  unfold save at h
  split at h
  · rename_i hcountable
    cases h
    exact .inl ⟨by simpa using hcountable, rfl, rfl, rfl⟩
  · rename_i hcountable
    dsimp only at h
    split at h
    · rename_i hwritable
      cases h
      exact .inr ⟨by simpa using hcountable, rfl, .inl ⟨by simpa using hwritable, rfl, rfl⟩⟩
    · simp only [Outcome.mk.injEq] at h
      obtain ⟨htree, rfl, hresult⟩ := h
      exact .inr ⟨by simpa using hcountable, rfl, .inr (Prod.ext htree hresult)⟩

/-- A change whose write fails is undone, unless the program is stopped. -/
theorem commit_eq_error {α : Type} {s s' : Store} {t t' : Tree} {today : String} {data : Ledger}
    {result : α} {e : LedgerError} (h : s.commit t today data result = ⟨t', s', .error e⟩) :
    ∃ x, Store.save { s with data } t today = ⟨t', x, .error e⟩ ∧
      s' = if e.isUndone then s else x := by
  unfold commit at h
  obtain ⟨u, x, r, hsave⟩ : ∃ u x r, Store.save { s with data } t today = ⟨u, x, r⟩ :=
    ⟨_, _, _, rfl⟩
  rw [hsave] at h
  cases r with
  | ok _ => cases h
  | error f =>
    cases h
    exact ⟨x, hsave, rfl⟩

/-- Whether the value of a change fits its field. -/
def Change.isFit : Change → Bool
  | unfit _ _ => false
  | _ => true

theorem Change.unfit_apply_eq {c : Change} (hfit : c.isFit = true) (hlocked : c.locked? = none)
    (e : Entry) : (c.apply e).unfit = c.keptUnfit e := by
  cases c with
  | unfit name v => cases hfit
  | locked name => cases hlocked
  | _ => rfl

theorem Change.unfit_apply {e : Entry} {c : Change} (he : e.unfit = []) (hc : c.isFit = true) :
    (c.apply e).unfit = [] := by
  cases c <;> simp_all [Change.apply, Change.keptUnfit, Change.isFit]

theorem unfit_foldl_apply {e : Entry} {cs : List Change} (he : e.unfit = [])
    (hcs : ∀ c ∈ cs, c.isFit = true) : (cs.foldl Change.apply e).unfit = [] := by
  induction cs generalizing e with
  | nil => exact he
  | cons c rest ih =>
    obtain ⟨hc, hrest⟩ := List.forall_mem_cons.mp hcs
    exact ih (Change.unfit_apply he hc) hrest

end Store

namespace Operation

variable {s : Store} {t : Tree} {today : String} {edit : Edit}

/-- Whether the values that an operation is given fit the fields of an entry. -/
def Fit : Operation → Prop
  | add entry => entry.unfit = []
  | update _ changes => ∀ c ∈ changes, c.isFit = true
  | _ => True

theorem planAdd_eq_ok {entry : Entry} (h : planAdd s entry = .ok (some edit)) :
    edit = .append (s.withId entry) ∧ s.data.entry? (s.withId entry).id = none ∧
      s.data.find? (s.withId entry).file (s.withId entry).line (some (s.withId entry).category) =
        none := by
  unfold planAdd at h
  split at h
  · cases h
  · dsimp only at h
    split at h
    · cases h
    · rename_i hid
      split at h
      · cases h
      · rename_i hplace
        cases h
        exact ⟨rfl, by simpa using hid, hplace⟩

/-- An update is refused, and then counts as undone, or comes to an edit. -/
theorem planUpdate_cases (s : Store) (id : String) (changes : List Change) :
    (∃ e, planUpdate s id changes = .error e ∧ e.isUndone = true) ∨
      ∃ e, s.data.entry? id = some e ∧
        planUpdate s id changes = .ok (some (.replace id (changes.foldl Change.apply e))) := by
  unfold planUpdate
  split
  · exact .inl ⟨_, rfl, rfl⟩
  · rename_i e hentry
    split
    · exact .inl ⟨_, rfl, rfl⟩
    · exact .inr ⟨e, hentry, rfl⟩

theorem planUpdate_eq_ok {id : String} {changes : List Change}
    (h : planUpdate s id changes = .ok (some edit)) :
    ∃ e, s.data.entry? id = some e ∧ edit = .replace id (changes.foldl Change.apply e) := by
  rcases planUpdate_cases s id changes with ⟨err, hrefused, -⟩ | ⟨e, hentry, hplan⟩
  · rw [hrefused] at h
    cases h
  · rw [hplan] at h
    cases h
    exact ⟨e, hentry, rfl⟩

/-- A new approval of an entry is an update of its snapshots. -/
theorem planReapprove_eq_ok {root : Path} {id : String} {planned : Option Edit}
    (h : planReapprove s t root id = .ok planned) :
    ∃ code dependencies,
      planUpdate s id [.approvedCodeSnapshot code, .dependencies dependencies] = .ok planned := by
  unfold planReapprove at h
  split at h
  · cases h
  · dsimp only at h
    split at h
    · cases h
    · split at h
      · cases h
      · exact ⟨_, _, h⟩

theorem fits_of_planAdd {entry : Entry} (hentry : entry.unfit = [])
    (h : planAdd s entry = .ok (some edit)) : edit.Fits := by
  obtain ⟨rfl, -, -⟩ := planAdd_eq_ok h
  obtain ⟨id, hid⟩ := withId_eq s entry
  rw [hid]
  exact hentry

theorem fits_of_planUpdate {id : String} {changes : List Change} (hs : s.data.WellKept)
    (hchanges : ∀ c ∈ changes, c.isFit = true)
    (h : planUpdate s id changes = .ok (some edit)) : edit.Fits := by
  obtain ⟨e, hentry, rfl⟩ := planUpdate_eq_ok h
  exact unfit_foldl_apply (hs.fit e (List.mem_of_find?_eq_some hentry)) hchanges

theorem fits_of_planReapprove {root : Path} {id : String} (hs : s.data.WellKept)
    (h : planReapprove s t root id = .ok (some edit)) : edit.Fits := by
  obtain ⟨code, dependencies, hupdate⟩ := planReapprove_eq_ok h
  exact fits_of_planUpdate hs (by simp [Change.isFit]) hupdate

theorem unfit_of_entryFor {root : Path} {r : Approval.Request} {entry : Entry}
    (h : Approval.entryFor t root today r = .ok entry) : entry.unfit = [] := by
  obtain ⟨code, dependencies, -, -, rfl⟩ := Approval.entryFor_eq_ok h
  rfl

/-- An operation with values that fit plans an edit with values that fit. -/
theorem fits_of_plan {op : Operation} (hs : s.data.WellKept) (hfit : op.Fit)
    (h : op.plan s t today = .ok (some edit)) : edit.Fits := by
  cases op with
  | add entry => exact fits_of_planAdd hfit h
  | update id changes => exact fits_of_planUpdate hs hfit h
  | remove id =>
    obtain ⟨-, -, rfl⟩ := Option.map_eq_some_iff.mp (Except.ok.inj h)
    trivial
  | addFramework name signatures description stats verifiedBy =>
    cases h
    trivial
  | setEnabled name enabled =>
    dsimp only [plan] at h
    split at h
    · cases h
    · cases h
      trivial
  | removeFramework name =>
    obtain ⟨-, -, rfl⟩ := Option.map_eq_some_iff.mp (Except.ok.inj h)
    trivial
  | approve root request =>
    dsimp only [plan] at h
    split at h
    · cases h
    · rename_i entry hentry
      exact fits_of_planAdd (unfit_of_entryFor hentry) h
  | reapprove root id => exact fits_of_planReapprove hs h

/-- Whether it succeeds or fails, an operation leaves a well-kept ledger in memory. -/
theorem kept_perform {op : Operation} {path : Path} (hs : s.Kept path) (hfit : op.Fit) (t : Tree)
    (today : String) : (op.perform s t today).store.Kept path := by
  rw [perform_eq]
  unfold execute
  split
  · exact hs
  · exact hs
  · rename_i edit hplan
    have hedited := hs.wellKept.apply (fits_of_plan hs.wellKept hfit hplan)
    exact kept_commit hs hedited t today true

/-! ## How an operation ends -/

theorem perform_eq_ok {s' : Store} {t' : Tree} {op : Operation}
    (h : op.perform s t today = ⟨t', s', .ok true⟩) :
    ∃ edit, op.plan s t today = .ok (some edit) ∧
      Wrote s t today (edit.apply s.data) t' s' := by
  rw [perform_eq] at h
  cases hplan : op.plan s t today with
  | error e =>
    rw [hplan] at h
    cases h
  | ok planned =>
    rw [hplan] at h
    cases planned with
    | none => cases h
    | some edit => exact ⟨edit, rfl, (commit_eq_ok_iff.mp h).2⟩

/-- An operation fails because it is refused, or because the edited ledger cannot be saved. -/
theorem perform_eq_error {s' : Store} {t' : Tree} {op : Operation} {e : LedgerError}
    (h : op.perform s t today = ⟨t', s', .error e⟩) :
    op.plan s t today = .error e ∧ t' = t ∧ s' = s ∨
      ∃ edit x, op.plan s t today = .ok (some edit) ∧
        Store.save { s with data := edit.apply s.data } t today = ⟨t', x, .error e⟩ ∧
        s' = if e.isUndone then s else x := by
  rw [perform_eq] at h
  cases hplan : op.plan s t today with
  | error f =>
    rw [hplan] at h
    cases h
    exact .inl ⟨rfl, rfl, rfl⟩
  | ok planned =>
    rw [hplan] at h
    cases planned with
    | none => cases h
    | some edit =>
      obtain ⟨x, hsave, hstore⟩ := commit_eq_error h
      exact .inr ⟨edit, x, rfl, hsave, hstore⟩

end Operation

end NullAccess
