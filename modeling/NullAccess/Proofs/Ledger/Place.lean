import NullAccess.Proofs.Drift.Judgement
import NullAccess.Proofs.Ledger.Identity

/-!
# Places

The place of an entry is its file, its line and its category.  An addition is refused where another
entry has the place, and the operations that take snapshots or dates leave every entry where it is,
so these keep the places distinct (`EntryStep.tidy`).  An update may move an entry, and it does not
ask whether the new place is free.  So the places along a run from an empty ledger are distinct
exactly as long as no update moves an entry to the place of another
(`places_distinct_iff_no_collision`).
-/

namespace NullAccess

open Store

/-! ## Places of entries -/

namespace Entry

variable {e : Entry}

def place (e : Entry) : String × Int × String := (e.file, e.line, e.category)

theorem place_eq_iff (h : e.unfit = []) (file : String) (line : Int) (category : String) :
    e.place = (file, line, category) ↔ e.isAt file line = true ∧ e.isOf category = true := by
  have hnone := Validator.unfit?_eq_none h
  simp [place, isAt, isLine, isOf, hnone, and_assoc]

end Entry

namespace Ledger

/-- No two entries share their file, line and category. -/
def PlacesDistinct (l : Ledger) : Prop := (l.entries.map Entry.place).Nodup

instance (l : Ledger) : Decidable l.PlacesDistinct :=
  inferInstanceAs (Decidable (l.entries.map Entry.place).Nodup)

/-- The entries among which a look-up chooses. -/
def candidates (l : Ledger) (file : String) (line : Int) (category : String) : List Entry :=
  l.entries.filter fun e => e.isAt file line && e.isOf category

theorem length_candidates_le {l : Ledger} (hfit : ∀ e ∈ l.entries, e.unfit = [])
    (h : l.PlacesDistinct) (file : String) (line : Int) (category : String) :
    (l.candidates file line category).length ≤ 1 := by
  have hsame : ∀ e ∈ l.candidates file line category, e.place = (file, line, category) := by
    intro e he
    obtain ⟨hmem, hat⟩ := List.mem_filter.mp he
    rw [Bool.and_eq_true] at hat
    exact (Entry.place_eq_iff (hfit e hmem) file line category).mpr hat
  have hnodup : ((l.candidates file line category).map Entry.place).Nodup :=
    h.sublist (List.filter_sublist.map Entry.place)
  rw [List.map_eq_replicate_iff.mpr hsame, List.nodup_replicate] at hnodup
  exact hnodup

end Ledger

/-! ## Changes that move no entry -/

namespace Store

/-- A change of a field that has nothing to do with the entry's place. -/
def Change.InPlace : Change → Prop
  | category _ | file _ | line _ | unfit _ _ => False
  | _ => True

theorem Change.place_apply {c : Change} (h : c.InPlace) (e : Entry) :
    (c.apply e).place = e.place := by
  cases c <;> first | rfl | exact h.elim

theorem Change.isFit_of_inPlace {c : Change} (h : c.InPlace) : c.isFit = true := by
  cases c <;> first | rfl | exact h.elim

theorem place_foldl_apply {cs : List Change} (h : ∀ c ∈ cs, c.InPlace) (e : Entry) :
    (cs.foldl Change.apply e).place = e.place := by
  induction cs generalizing e with
  | nil => rfl
  | cons c rest ih =>
    obtain ⟨hc, hrest⟩ := List.forall_mem_cons.mp h
    rw [List.foldl_cons, ih hrest, Change.place_apply hc]

end Store

def Permit.inPlace : Permit where
  unfit _ := False
  change := Change.InPlace
  code _ := trivial
  dependencies _ := trivial
  date _ := trivial

/-- Entries at distinct places, with values that fit their fields. -/
structure Tidy (es : List Entry) : Prop where
  fit : ∀ e ∈ es, e.unfit = []
  places : (es.map Entry.place).Nodup

/-- A step that moves no entry keeps the places distinct. -/
theorem EntryStep.tidy {es es' : List Entry} (h : EntryStep .inPlace es es') (hes : Tidy es) :
    Tidy es' := by
  cases h with
  | @append e permitted freeId freePlace =>
    constructor
    · intro a ha
      rcases List.mem_append.mp ha with hmem | hlast
      · exact hes.fit a hmem
      · rw [List.mem_singleton.mp hlast]
        exact List.eq_nil_iff_forall_not_mem.mpr permitted
    · rw [List.map_append, List.map_singleton, ← List.concat_eq_append]
      refine hes.places.concat fun hmem => ?_
      obtain ⟨a, ha, hplace⟩ := List.mem_map.mp hmem
      exact freePlace a ha ((Entry.place_eq_iff (hes.fit a ha) _ _ _).mp hplace)
  | change id permitted =>
    constructor
    · intro a ha
      rcases Ledger.mem_modifyEntry ha with ⟨b, hb, rfl⟩ | hmem
      · exact unfit_foldl_apply (hes.fit b hb) fun c hc => Change.isFit_of_inPlace (permitted c hc)
      · exact hes.fit a hmem
    · rw [Ledger.map_modifyEntry (place_foldl_apply permitted)]
      exact hes.places
  | drop id =>
    have hsub := Ledger.removeEntry_sublist id es
    exact ⟨fun a ha => hes.fit a (hsub.subset ha), hes.places.sublist (hsub.map Entry.place)⟩

/-! ## Updates -/

namespace Operation

variable {s : Store} {t : Tree} {today id : String} {changes : List Change}

/-- The entries after an update: those from before, or with the entry changed where it stands. -/
theorem entries_update (s : Store) (t : Tree) (today : String) (id : String)
    (changes : List Change) :
    (((update id changes).perform s t today).isUndone = true ∧
      ((update id changes).perform s t today).store.data.entries = s.data.entries) ∨
    ((update id changes).perform s t today).isUndone = false ∧
      ∃ e before after, s.data.entry? id = some e ∧ e.id = id ∧
        s.data.entries = before ++ e :: after ∧
        ((update id changes).perform s t today).store.data.entries =
          before ++ changes.foldl Change.apply e :: after := by
  have hperform : (update id changes).perform s t today =
      execute s t today (planUpdate s id changes) := perform_eq ..
  rw [hperform]
  rcases planUpdate_cases s id changes with ⟨err, hplan, hundone⟩ | ⟨e, hentry, hplan⟩
  · rw [hplan]
    exact .inl ⟨hundone, rfl⟩
  · obtain ⟨before, after, hentries, he, hbefore⟩ := Ledger.exists_of_entry? hentry
    have hedited : (Edit.apply s.data (.replace id (changes.foldl Change.apply e))).entries =
        before ++ changes.foldl Change.apply e :: after := by
      rw [Edit.apply, hentries, Ledger.modifyEntry_append he hbefore]
    have hleft := entries_commit s t today
      (Edit.apply s.data (.replace id (changes.foldl Change.apply e))) true
    rw [hedited] at hleft
    rw [hplan, execute]
    generalize s.commit t today _ true = out at hleft ⊢
    cases hundone : out.isUndone with
    | true =>
      rw [hundone, if_pos rfl] at hleft
      exact .inl ⟨rfl, hleft⟩
    | false =>
      rw [hundone, if_neg Bool.false_ne_true] at hleft
      exact .inr ⟨rfl, e, before, after, hentry, he, hentries, hleft⟩

end Operation

/-! ## Turns -/

namespace Turn

variable {s : Store} {turn : Turn}

/-- Whether the values that a turn is given fit the fields of an entry. -/
def Fit : Turn → Prop
  | act a _ _ => a.Fit
  | check _ _ _ => True

/-- Whether a turn is an update that stays in memory and moves its entry to the place of another. -/
def Collides (s : Store) : Turn → Prop
  | act (.operate (.update id changes)) t today =>
    ((Operation.update id changes).perform s t today).isUndone = false ∧
      ∃ e, s.data.entry? id = some e ∧
        ∃ other ∈ s.data.entries, other.id ≠ id ∧
          other.place = (changes.foldl Change.apply e).place
  | _ => False

theorem kept_after {path : Path} (hs : s.Kept path) (hfit : turn.Fit) :
    (turn.after s).Kept path := by
  cases turn with
  | act a t today => exact Action.kept_perform hs hfit t today
  | check v t today =>
    dsimp only [after, validateAll]
    split
    · exact hs
    · simp only [Bool.false_eq_true, if_false, if_true]
      exact hs

theorem placesDistinct_update {id : String} {changes : List Change} {t : Tree} {today : String}
    (hids : (s.data.entries.map (·.id)).Nodup) (hplaces : s.data.PlacesDistinct) :
    (Turn.after s (.act (.operate (.update id changes)) t today)).data.PlacesDistinct ↔
      ¬ Collides s (.act (.operate (.update id changes)) t today) := by
  dsimp only [after, Action.perform, Collides]
  rcases Operation.entries_update s t today id changes with
    ⟨hundone, hentries⟩ | ⟨hundone, e, before, after, hentry, he, hbefore, hafter⟩
  · rw [Ledger.PlacesDistinct, hentries, hundone]
    exact ⟨fun _ h => Bool.noConfusion h.1, fun _ => hplaces⟩
  · -- The ids and the places of the other entries are distinct already.
    rw [hbefore, List.map_append, List.map_cons, List.nodup_middle, List.nodup_cons,
      ← List.map_append] at hids
    rw [Ledger.PlacesDistinct, hbefore, List.map_append, List.map_cons, List.nodup_middle,
      List.nodup_cons, ← List.map_append] at hplaces
    rw [Ledger.PlacesDistinct, hafter, List.map_append, List.map_cons, List.nodup_middle,
      List.nodup_cons, ← List.map_append, and_iff_left hplaces.2, not_iff_not, hundone, hentry,
      hbefore]
    constructor
    · intro hmem
      obtain ⟨other, hother, hplace⟩ := List.mem_map.mp hmem
      refine ⟨rfl, e, rfl, other, ?_, ?_, hplace⟩
      · exact (List.perm_middle.symm.subset) (List.mem_cons_of_mem e hother)
      · intro hid
        exact hids.1 (List.mem_map.mpr ⟨other, hother, hid.trans he.symm⟩)
    · rintro ⟨-, e', he', other, hother, hid, hplace⟩
      obtain rfl := Option.some_inj.mp he'
      rcases List.mem_cons.mp (List.perm_middle.subset hother) with rfl | hmem
      · exact absurd he hid
      · exact List.mem_map.mpr ⟨other, hmem, hplace⟩

/-- A turn keeps the places distinct unless it collides. -/
theorem placesDistinct_after (hfits : ∀ e ∈ s.data.entries, e.unfit = [])
    (hids : (s.data.entries.map (·.id)).Nodup) (hplaces : s.data.PlacesDistinct) (hfit : turn.Fit) :
    (turn.after s).data.PlacesDistinct ↔ ¬ turn.Collides s := by
  have hstays : turn.Permitted .inPlace → (turn.after s).data.PlacesDistinct := fun hpermitted =>
    (EntrySteps.keep EntryStep.tidy (turn.steps_after hpermitted s) ⟨hfits, hplaces⟩).places
  rcases turn with ⟨⟨op⟩, t, today⟩ | _
  · cases op with
    | update id changes => exact placesDistinct_update hids hplaces
    | add entry =>
      have hentry : entry.unfit = [] := hfit
      have hnone : ∀ v ∈ entry.unfit, False := List.eq_nil_iff_forall_not_mem.mp hentry
      exact iff_of_true (hstays hnone) not_false
    | _ => exact iff_of_true (hstays trivial) not_false
  all_goals exact iff_of_true (hstays trivial) not_false

end Turn

/-! ## Runs -/

namespace Store

variable {s : Store} {turns : List Turn}

theorem kept_run {path : Path} (hs : s.Kept path) (hfit : ∀ turn ∈ turns, turn.Fit) :
    (s.run turns).Kept path := by
  induction turns generalizing s with
  | nil => exact hs
  | cons turn rest ih =>
    obtain ⟨hturn, hrest⟩ := List.forall_mem_cons.mp hfit
    exact ih (Turn.kept_after hs hturn) hrest

theorem forall_prefix_cons {P : List Turn → Prop} {turn : Turn} :
    (∀ before, before <+: turn :: turns → P before) ↔
      P [] ∧ ∀ before, before <+: turns → P (turn :: before) := by
  constructor
  · intro h
    exact ⟨h [] List.nil_prefix,
      fun before hbefore => h _ (List.prefix_cons_iff.mpr (.inr ⟨before, rfl, hbefore⟩))⟩
  · rintro ⟨hnil, hcons⟩ before hbefore
    rcases List.prefix_cons_iff.mp hbefore with rfl | ⟨rest, rfl, hrest⟩
    · exact hnil
    · exact hcons rest hrest

theorem placesDistinct_run_iff {path : Path} (hs : s.Kept path)
    (hids : (s.data.entries.map (·.id)).Nodup) (hplaces : s.data.PlacesDistinct)
    (hfit : ∀ turn ∈ turns, turn.Fit) :
    (∀ before, before <+: turns → (s.run before).data.PlacesDistinct) ↔
      ∀ before turn, before ++ [turn] <+: turns → ¬ turn.Collides (s.run before) := by
  induction turns generalizing s with
  | nil =>
    refine iff_of_true (fun before hbefore => ?_) (fun before turn hlast => ?_)
    · rw [List.prefix_nil.mp hbefore]
      exact hplaces
    · exact absurd (List.prefix_nil.mp hlast) (by simp)
  | cons turn rest ih =>
    obtain ⟨hturn, hrest⟩ := List.forall_mem_cons.mp hfit
    have hfirst : (turn.after s).data.PlacesDistinct ↔ ¬ turn.Collides s :=
      Turn.placesDistinct_after hs.wellKept.fit hids hplaces hturn
    have hids' : ((turn.after s).data.entries.map (·.id)).Nodup := nodup_ids_run hids [turn]
    -- The induction speaks of the ledger after the first turn only if its places are still
    -- distinct.
    have hlater := fun hdistinct => ih (Turn.kept_after hs hturn) hids' hdistinct hrest
    constructor
    · intro h before last hlast
      have hafter := (forall_prefix_cons.mp h).2
      have hdistinct : (turn.after s).data.PlacesDistinct := hafter [] List.nil_prefix
      cases before with
      | nil =>
        obtain rfl : last = turn := by simpa using hlast
        exact hfirst.mp hdistinct
      | cons first more =>
        obtain ⟨rfl, hmore⟩ : first = turn ∧ more ++ [last] <+: rest := by simpa using hlast
        exact (hlater hdistinct).mp hafter more last hmore
    · intro h
      have hdistinct : (turn.after s).data.PlacesDistinct :=
        hfirst.mpr (h [] turn (by simp))
      refine forall_prefix_cons.mpr ⟨hplaces, (hlater hdistinct).mpr fun before last hlast => ?_⟩
      exact h (turn :: before) last (by simpa using hlast)

/-- The places of a ledger that was empty at first are distinct throughout a run exactly if no turn
of the run is an update that moves an entry to the place of another.  Where they are distinct, a
look-up has at most one entry to choose from. -/
theorem places_distinct_iff_no_collision (path : Path) (day : String)
    (hfit : ∀ turn ∈ turns, turn.Fit) :
    ((∀ before, before <+: turns →
        (Store.run { path, data := .empty day } before).data.PlacesDistinct) ↔
      ∀ before turn, before ++ [turn] <+: turns →
        ¬ turn.Collides (Store.run { path, data := .empty day } before)) ∧
    ∀ before, before <+: turns →
      (Store.run { path, data := .empty day } before).data.PlacesDistinct →
      ∀ file line category,
        ((Store.run { path, data := .empty day } before).data.candidates file line category).length
          ≤ 1 := by
  have hempty : Store.Kept path { path, data := .empty day } := ⟨rfl, wellKept_empty day⟩
  refine ⟨placesDistinct_run_iff hempty List.nodup_nil List.nodup_nil hfit, ?_⟩
  intro before hbefore hdistinct
  have hkept := kept_run hempty fun turn hturn => hfit turn (hbefore.subset hturn)
  exact Ledger.length_candidates_le hkept.wellKept.fit hdistinct

def collidingStart : Store :=
  { path := { anchor := .root, parts := ["p", "l.json"] }, data := .empty "2025-03-04" }

/-- Two entries come in, and the second is moved to the line of the first. -/
def collidingTurns : List Turn :=
  [.act (.operate (.add { id := "n-1", file := "a.js", line := 1, approvedCodeSnapshot := "x.y;",
                          approvedDate := "2025-03-04" })) ⟨[(["p"], .dir)]⟩ "2025-03-04",
   .act (.operate (.add { id := "n-2", file := "a.js", line := 2, approvedCodeSnapshot := "x.y;",
                          approvedDate := "2025-03-04" })) ⟨[(["p"], .dir)]⟩ "2025-03-04",
   .act (.operate (.update "n-2" [.line 1])) ⟨[(["p"], .dir)]⟩ "2025-03-04"]

theorem fit_collidingTurns : ∀ turn ∈ collidingTurns, turn.Fit := by
  have hline : ∀ c ∈ [Change.line 1], c.isFit = true := by decide
  simp only [collidingTurns, List.forall_mem_cons]
  exact ⟨rfl, rfl, hline, List.forall_mem_nil _⟩

theorem places_distinct_iff_no_collision_sample :
    (∀ turn ∈ collidingTurns, turn.Fit) ∧
    ∃ before turn, before ++ [turn] <+: collidingTurns ∧
      turn.Collides (collidingStart.run before) := by
  refine ⟨fit_collidingTurns, ?_⟩
  have hruns := (places_distinct_iff_no_collision collidingStart.path "2025-03-04"
    fit_collidingTurns).1
  have hend : ¬ (collidingStart.run collidingTurns).data.PlacesDistinct := by decide +kernel
  by_contra hnone
  refine hend (hruns.mpr (fun before turn hlast hcollides => ?_) _ (List.prefix_refl _))
  exact hnone ⟨before, turn, hlast, hcollides⟩

/-- The update is accepted, and a look-up finds the entry that was there before. -/
theorem update_takes_place_of_another :
    ((Operation.update "n-2" [.line 1]).perform (collidingStart.run (collidingTurns.take 2))
      ⟨[(["p"], .dir)]⟩ "2025-03-04").result = .ok true ∧
    ¬ (collidingStart.run collidingTurns).data.PlacesDistinct ∧
    ((collidingStart.run collidingTurns).data.candidates "a.js" 1 "null-access").map (·.id) =
      ["n-1", "n-2"] ∧
    ((collidingStart.run collidingTurns).data.find? "a.js" 1 (some "null-access")).map (·.id) =
      some "n-1" := by
  decide +kernel

end Store

end NullAccess
