import Mathlib.Logic.Relation
import NullAccess.Proofs.Ledger.Persistence

/-!
# Runs and what they do to entries

Whatever a program does with an open ledger, the entries change in three ways only: an entry comes
in whose id and place are free, an entry is changed where it stands, or an entry is taken out
(`EntryStep`).  `Turn.steps_after` says that of one turn of a run and `steps_run` of a whole run, so
an invariant of the entries needs no more than one lemma on `EntryStep`.

Runs differ in what they are given.  A `Permit` says which values and which changes that may be;
what the program itself puts into a ledger is always permitted.
-/

namespace NullAccess

open Store

/-! ## What a run may be given -/

structure Permit where
  /-- The values that an added entry may hold in fields which they do not fit. -/
  unfit : String × Json → Prop
  change : Change → Prop
  code : ∀ v, change (.approvedCodeSnapshot v)
  dependencies : ∀ v, change (.dependencies v)
  date : ∀ v, change (.lastValidatedDate v)

namespace Permit

def everything : Permit where
  unfit _ := True
  change _ := True
  code _ := trivial
  dependencies _ := trivial
  date _ := trivial

end Permit

/-! ## Steps -/

inductive EntryStep (p : Permit) : List Entry → List Entry → Prop where
  | append {es : List Entry} {e : Entry} (permitted : ∀ v ∈ e.unfit, p.unfit v)
      (freeId : ∀ a ∈ es, a.id ≠ e.id)
      (freePlace : ∀ a ∈ es, ¬ (a.isAt e.file e.line = true ∧ a.isOf e.category = true)) :
      EntryStep p es (es ++ [e])
  | change {es : List Entry} {cs : List Change} (id : String) (permitted : ∀ c ∈ cs, p.change c) :
      EntryStep p es (Ledger.modifyEntry id (fun e => cs.foldl Change.apply e) es)
  | drop {es : List Entry} (id : String) : EntryStep p es (Ledger.removeEntry id es)

/-- Any number of steps. -/
def EntrySteps (p : Permit) : List Entry → List Entry → Prop := Relation.ReflTransGen (EntryStep p)

namespace EntrySteps

variable {p : Permit} {es es' es'' : List Entry}

theorem refl : EntrySteps p es es := Relation.ReflTransGen.refl

theorem trans (h : EntrySteps p es es') (h' : EntrySteps p es' es'') : EntrySteps p es es'' :=
  Relation.ReflTransGen.trans h h'

theorem single (h : EntryStep p es es') : EntrySteps p es es' := Relation.ReflTransGen.single h

/-- What one step keeps, any number of steps keeps. -/
theorem keep {P : List Entry → Prop} (hstep : ∀ {es es'}, EntryStep p es es' → P es → P es')
    (h : EntrySteps p es es') (hes : P es) : P es' := by
  induction h with
  | refl => exact hes
  | tail _ hlast ih => exact hstep hlast ih

end EntrySteps

/-! ## Entries in their places -/

namespace Ledger

variable {id : String} {e : Entry} {es before after : List Entry} {f : Entry → Entry}

/-- The first entry of an id, with the entries before and after it. -/
theorem exists_of_entry? {l : Ledger} (h : l.entry? id = some e) :
    ∃ before after, l.entries = before ++ e :: after ∧ e.id = id ∧ ∀ a ∈ before, a.id ≠ id := by
  obtain ⟨hid, before, after, hentries, hbefore⟩ := List.find?_eq_some_iff_append.mp h
  exact ⟨before, after, hentries, by simpa using hid, fun a ha => by simpa using hbefore a ha⟩

theorem modifyEntry_append (he : e.id = id) (h : ∀ a ∈ before, a.id ≠ id) :
    modifyEntry id f (before ++ e :: after) = before ++ f e :: after := by
  induction before with
  | nil => rw [List.nil_append, modifyEntry, if_pos he, List.nil_append]
  | cons a rest ih =>
    obtain ⟨ha, hrest⟩ := List.forall_mem_cons.mp h
    rw [List.cons_append, modifyEntry, if_neg ha, ih hrest, List.cons_append]

theorem modifyEntry_const {l : Ledger} (h : l.entry? id = some e) :
    modifyEntry id (fun _ => f e) l.entries = modifyEntry id f l.entries := by
  obtain ⟨before, after, hentries, he, hbefore⟩ := exists_of_entry? h
  rw [hentries, modifyEntry_append he hbefore, modifyEntry_append he hbefore]

theorem removeEntry_sublist (id : String) (es : List Entry) : (removeEntry id es).Sublist es := by
  induction es with
  | nil => exact List.Sublist.slnil
  | cons e rest ih =>
    rw [removeEntry]
    split
    · exact List.sublist_cons_self e rest
    · exact ih.cons_cons e

end Ledger

/-! ## Saving -/

/-- Whether an operation failed and left the ledger in memory as it was. -/
def Outcome.isUndone {α : Type} (o : Outcome α) : Bool :=
  match o.result with
  | .ok _ => false
  | .error e => e.isUndone

namespace Store

variable {s : Store} {t : Tree} {today : String}

theorem entries_save (s : Store) (t : Tree) (today : String) :
    (s.save t today).store.data.entries = s.data.entries := by
  rcases save_store s t today with h | h <;> rw [h]
  rfl

theorem entries_commit {α : Type} (s : Store) (t : Tree) (today : String) (data : Ledger)
    (result : α) :
    (s.commit t today data result).store.data.entries =
      if (s.commit t today data result).isUndone then s.data.entries else data.entries := by
  have hsaved := entries_save { s with data } t today
  unfold commit
  rcases hsave : Store.save { s with data } t today with ⟨u, x, e | _⟩
  · rw [hsave] at hsaved
    cases hundone : e.isUndone with
    | true => simp only [Outcome.isUndone, hundone, if_true]
    | false => simpa only [Outcome.isUndone, hundone, Bool.false_eq_true, if_false] using hsaved
  · rw [hsave] at hsaved
    exact hsaved

end Store

/-! ## Operations -/

namespace Operation

variable {s : Store} {t : Tree} {today : String} {p : Permit} {edit : Edit}

def Permitted (p : Permit) : Operation → Prop
  | add entry => ∀ v ∈ entry.unfit, p.unfit v
  | update _ changes => ∀ c ∈ changes, p.change c
  | _ => True

theorem steps_of_planAdd {entry : Entry} (hentry : ∀ v ∈ entry.unfit, p.unfit v)
    (h : planAdd s entry = .ok (some edit)) :
    EntrySteps p s.data.entries (edit.apply s.data).entries := by
  obtain ⟨rfl, hid, hplace⟩ := planAdd_eq_ok h
  obtain ⟨id, heq⟩ := withId_eq s entry
  refine .single (.append ?_ (Ledger.entry?_eq_none_iff.mp hid) ?_)
  · rw [heq]
    exact hentry
  · rw [Ledger.find?, List.find?_eq_none] at hplace
    intro a ha
    simpa using hplace a ha

theorem steps_of_planUpdate {id : String} {changes : List Change}
    (hchanges : ∀ c ∈ changes, p.change c) (h : planUpdate s id changes = .ok (some edit)) :
    EntrySteps p s.data.entries (edit.apply s.data).entries := by
  obtain ⟨e, hentry, rfl⟩ := planUpdate_eq_ok h
  have hfirst : Ledger.modifyEntry id (fun _ => changes.foldl Change.apply e) s.data.entries =
      Ledger.modifyEntry id (fun a => changes.foldl Change.apply a) s.data.entries :=
    Ledger.modifyEntry_const (f := fun a => changes.foldl Change.apply a) hentry
  rw [Edit.apply, hfirst]
  exact .single (.change id hchanges)

theorem steps_of_plan {op : Operation} (hop : op.Permitted p)
    (h : op.plan s t today = .ok (some edit)) :
    EntrySteps p s.data.entries (edit.apply s.data).entries := by
  cases op with
  | add entry => exact steps_of_planAdd hop h
  | update id changes => exact steps_of_planUpdate hop h
  | remove id =>
    obtain ⟨-, -, rfl⟩ := Option.map_eq_some_iff.mp (Except.ok.inj h)
    exact .single (.drop id)
  | addFramework name signatures description stats verifiedBy =>
    cases h
    exact .refl
  | setEnabled name enabled =>
    dsimp only [plan] at h
    split at h
    · cases h
    · cases h
      exact .refl
  | removeFramework name =>
    obtain ⟨-, -, rfl⟩ := Option.map_eq_some_iff.mp (Except.ok.inj h)
    exact .refl
  | approve root request =>
    dsimp only [plan] at h
    split at h
    · cases h
    · rename_i entry hentry
      refine steps_of_planAdd ?_ h
      rw [unfit_of_entryFor hentry]
      exact List.forall_mem_nil _
  | reapprove root id =>
    obtain ⟨code, dependencies, hupdate⟩ := planReapprove_eq_ok h
    refine steps_of_planUpdate ?_ hupdate
    intro c hc
    simp only [List.mem_cons, List.not_mem_nil, or_false] at hc
    rcases hc with rfl | rfl
    · exact p.code code
    · exact p.dependencies dependencies

theorem steps_perform {op : Operation} (hop : op.Permitted p) (s : Store) (t : Tree)
    (today : String) : EntrySteps p s.data.entries (op.perform s t today).store.data.entries := by
  rw [perform_eq]
  unfold execute
  split
  · exact .refl
  · exact .refl
  · rename_i edit hplan
    rw [entries_commit]
    split
    · exact .refl
    · exact steps_of_plan hop hplan

end Operation

/-! ## Walks over markers -/

namespace Approval

variable {today : String} {root : Path}

/-- The ledger that an approval leaves of another. -/
def Leaves (today : String) (root : Path) (s s' : Store) : Prop :=
  ∃ t request, s' = (approve s t today root request).store

/-- The ledger that approvals, one after the other, leave of another. -/
def LeavesMany (today : String) (root : Path) : Store → Store → Prop :=
  Relation.ReflTransGen (Leaves today root)

namespace Progress

variable {p : Progress} {file : String}

theorem leaves_readMarker (p : Progress) (line : Int) (m : ConsumerMarker) :
    LeavesMany today root p.store (p.readMarker today root file line m).1.store := by
  unfold readMarker
  dsimp only
  split
  · exact .refl
  · split
    · exact .refl
    · generalize Request.mk file line _ _ _ _ = request
      have hleaves : Leaves today root p.store (approve p.store p.tree today root request).store :=
        ⟨p.tree, request, rfl⟩
      rcases happrove : approve p.store p.tree today root request with ⟨u, x, e | entry⟩
      · rw [happrove] at hleaves
        dsimp only
        split <;> exact .single hleaves
      · rw [happrove] at hleaves
        exact .single hleaves

theorem leaves_readMarkers (p : Progress) (marked : List (Int × ConsumerMarker)) :
    LeavesMany today root p.store (p.readMarkers today root file marked).1.store := by
  induction marked generalizing p with
  | nil => exact .refl
  | cons first rest ih =>
    obtain ⟨line, m⟩ := first
    have hfirst : LeavesMany today root p.store (p.readMarker today root file line m).1.store :=
      leaves_readMarker p line m
    rw [readMarkers]
    rcases hread : p.readMarker today root file line m with ⟨p', e | _⟩
    · rwa [hread] at hfirst
    · rw [hread] at hfirst
      exact hfirst.trans (ih p')

theorem leaves_readFiles (p : Progress) (files : List String) :
    LeavesMany today root p.store (p.readFiles today root files).1.store := by
  induction files generalizing p with
  | nil => exact .refl
  | cons file rest ih =>
    rw [readFiles_cons]
    cases readLines p.tree root file with
    | error e =>
      dsimp only
      split
      · exact .refl
      · exact ih { p with done := { p.done with errors := p.done.errors ++ [e.message] } }
    | ok lines =>
      dsimp only
      cases Marker.findAll lines with
      | error f => exact .refl
      | ok marked =>
        have hmarkers :
            LeavesMany today root p.store (p.readMarkers today root file marked).1.store :=
          leaves_readMarkers p marked
        dsimp only
        rcases hread : p.readMarkers today root file marked with ⟨p', e | _⟩
        · rwa [hread] at hmarkers
        · rw [hread] at hmarkers
          exact hmarkers.trans (ih p')

end Progress

/-- A walk over markers changes a ledger by approvals alone. -/
theorem leaves_sync (s : Store) (t : Tree) (today : String) (root : Path) (files : List String) :
    LeavesMany today root s (sync s t today root files).store := by
  have hwalk : LeavesMany today root s
      (Progress.readFiles today root { tree := t, store := s } files).1.store :=
    Progress.leaves_readFiles { tree := t, store := s } files
  unfold sync
  rcases hread : Progress.readFiles today root { tree := t, store := s } files with ⟨p, e | _⟩ <;>
  · rw [hread] at hwalk
    exact hwalk

theorem LeavesMany.steps {s s' : Store} (h : LeavesMany today root s s') (p : Permit) :
    EntrySteps p s.data.entries s'.data.entries := by
  induction h with
  | refl => exact .refl
  | tail _ hlast ih =>
    obtain ⟨u, request, rfl⟩ := hlast
    have hop : (Operation.approve root request).Permitted p := trivial
    exact ih.trans (Operation.steps_perform hop _ u today)

end Approval

/-! ## Validations -/

namespace Store

variable {p : Permit}

theorem steps_foldl_touch (p : Permit) (today : String) (results : List ValidationResult)
    (l : Ledger) : EntrySteps p l.entries (results.foldl (touch today) l).entries := by
  induction results generalizing l with
  | nil => exact .refl
  | cons r rest ih =>
    refine EntrySteps.trans ?_ (ih (touch today l r))
    unfold touch
    split
    · have hdates : ∀ c ∈ [Change.lastValidatedDate (some today)], p.change c := by
        intro c hc
        rw [List.mem_singleton.mp hc]
        exact p.date _
      exact .single (.change r.entryId hdates)
    · exact .refl

theorem steps_validateAll (p : Permit) (s : Store) (t : Tree) (today : String) (v : Validator)
    (touching : Bool) :
    EntrySteps p s.data.entries (s.validateAll t today v touching).2.1.data.entries := by
  unfold validateAll
  split
  · exact .refl
  · rename_i results v' hresults
    dsimp only
    generalize htouched :
        (if touching then results.foldl (touch today) s.data else s.data) = touched
    have hsteps : EntrySteps p s.data.entries touched.entries := by
      rw [← htouched]
      split
      · exact steps_foldl_touch p today results s.data
      · exact .refl
    split
    · exact .refl
    · have hsaved := entries_save { s with data := touched } t today
      split <;> rename_i hsave <;> rw [hsave] at hsaved <;> exact hsaved ▸ hsteps

end Store

/-! ## Turns -/

/-- One thing that a program does with an open ledger, with the files as it finds them and the
day. -/
inductive Turn where
  | act (a : Action) (t : Tree) (today : String)
  /-- A validation that dates no entries. -/
  | check (v : Validator) (t : Tree) (today : String)

namespace Turn

variable {p : Permit} {turn : Turn}

/-- The open ledger after a turn, whether it succeeds or fails. -/
def after (s : Store) : Turn → Store
  | act a t today => (a.perform s t today).store
  | check v t today => (s.validateAll t today v false).2.1

def Permitted (p : Permit) : Turn → Prop
  | act (.operate op) _ _ => op.Permitted p
  | _ => True

theorem permitted_everything (turn : Turn) : turn.Permitted .everything := by
  rcases turn with ⟨⟨op⟩, t, today⟩ | _
  · cases op <;> simp [Permitted, Operation.Permitted, Permit.everything]
  · trivial
  · trivial
  · trivial

theorem steps_after (h : turn.Permitted p) (s : Store) :
    EntrySteps p s.data.entries (turn.after s).data.entries := by
  cases turn with
  | check v t today => exact steps_validateAll p s t today v false
  | act a t today =>
    cases a with
    | operate op => exact Operation.steps_perform h s t today
    | sync root files => exact (Approval.leaves_sync s t today root files).steps p
    | touch v =>
      have hsteps := steps_validateAll p s t today v true
      dsimp only [after, Action.perform]
      split <;> rename_i hresult <;> rw [hresult] at hsteps <;> exact hsteps

end Turn

namespace Store

variable {p : Permit}

/-- The open ledger after some turns. -/
def run (s : Store) (turns : List Turn) : Store := turns.foldl (fun s turn => turn.after s) s

theorem steps_run {turns : List Turn} (h : ∀ turn ∈ turns, turn.Permitted p) (s : Store) :
    EntrySteps p s.data.entries (s.run turns).data.entries := by
  induction turns generalizing s with
  | nil => exact .refl
  | cons turn rest ih =>
    obtain ⟨hturn, hrest⟩ := List.forall_mem_cons.mp h
    exact (turn.steps_after hturn s).trans (ih hrest (turn.after s))

end Store

end NullAccess
