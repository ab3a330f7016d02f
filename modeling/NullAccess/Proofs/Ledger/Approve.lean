import NullAccess.Ledger.Approval
import NullAccess.Proofs.Files.Replace
import NullAccess.Proofs.Json.Bounds

/-!
# Approving and removing

What holds after a line was approved: the ledger has one entry more, for a location and an id that
were free (`granted_of_approve`).  Such an entry can be removed again, and the ledger then has the
entries it had before (`remove_granted`).
-/

namespace NullAccess

/-! ## Numbers that can be written -/

theorem Text.isWritable_of_le {m n : Nat} (h : m ≤ n) (hn : Text.isWritable n = true) :
    Text.isWritable m = true := by
  rw [Text.isWritable, decide_eq_true_eq] at hn ⊢
  exact Nat.lt_of_le_of_lt h hn

namespace Ledger

/-! ## Counts -/

theorem mem_countUp {category c : String} {n : Int} {counts : List (String × Int)}
    (h : (c, n) ∈ counts) :
    (c, n) ∈ countUp category counts ∨ (c, n + 1) ∈ countUp category counts := by
  induction counts with
  | nil => cases h
  | cons count rest ih =>
    obtain ⟨k, i⟩ := count
    rw [countUp]
    by_cases hk : k = category
    · rw [if_pos hk]
      rcases List.mem_cons.mp h with heq | hrest
      · cases heq
        exact .inr List.mem_cons_self
      · exact .inl (List.mem_cons_of_mem _ hrest)
    · rw [if_neg hk]
      rcases List.mem_cons.mp h with heq | hrest
      · exact .inl (heq ▸ List.mem_cons_self)
      · exact (ih hrest).imp (List.mem_cons_of_mem _) (List.mem_cons_of_mem _)

theorem nonneg_of_mem_countUp {category : String} {counts : List (String × Int)}
    (h : ∀ count ∈ counts, 0 ≤ count.2) : ∀ count ∈ countUp category counts, 0 ≤ count.2 := by
  induction counts with
  | nil => simp [countUp]
  | cons count rest ih =>
    obtain ⟨hcount, hrest⟩ := List.forall_mem_cons.mp h
    rw [countUp]
    by_cases hk : count.1 = category
    · rw [if_pos hk]
      exact List.forall_mem_cons.mpr ⟨by simp only; omega, hrest⟩
    · rw [if_neg hk]
      exact List.forall_mem_cons.mpr ⟨hcount, ih hrest⟩

theorem nonneg_of_mem_categoryCounts (l : Ledger) : ∀ count ∈ l.categoryCounts, 0 ≤ count.2 := by
  have hfold : ∀ (cs : List String) (counts : List (String × Int)),
      (∀ count ∈ counts, 0 ≤ count.2) →
        ∀ count ∈ cs.foldl (fun counts c => countUp c counts) counts, 0 ≤ count.2 := by
    intro cs
    induction cs with
    | nil => exact fun _ h => h
    | cons c rest ih => exact fun counts h => ih _ (nonneg_of_mem_countUp h)
  exact hfold _ [] nofun

/-- The counts of a ledger without its last entry are no greater. -/
theorem mem_categoryCounts_append {l : Ledger} {es : List Entry} {e : Entry} {c : String} {n : Int}
    (h : (c, n) ∈ categoryCounts { l with entries := es }) :
    (c, n) ∈ categoryCounts { l with entries := es ++ [e] } ∨
      (c, n + 1) ∈ categoryCounts { l with entries := es ++ [e] } := by
  simp only [categoryCounts, List.filterMap_append, List.foldl_append] at h ⊢
  cases he : e.countedAs? with
  | none =>
    rw [List.filterMap_cons_none he]
    exact .inl h
  | some category =>
    rw [List.filterMap_cons_some he]
    exact mem_countUp h

theorem isWritable_stamped_iff {l : Ledger} {day : String} :
    (l.stamped day).toJson.isWritable = true ↔
      (∀ p ∈ l.frameworks, p.2.toJson.isWritable = true) ∧
      (∀ e ∈ l.entries, e.toJson.isWritable = true) ∧
      ∀ count ∈ l.categoryCounts, Text.isWritable count.2.natAbs = true := by
  simp only [toJson, stamped, Json.isWritable, Json.areWritableFields, Json.areWritable_eq,
    Json.areWritableFields_eq, Bool.and_eq_true, List.all_map, List.all_eq_true, true_and, and_true,
    Function.comp_apply]

/-- A ledger that can be written can be written without its last entry. -/
theorem isWritable_of_append {l : Ledger} {es : List Entry} {e : Entry} {day day' : String}
    (h : (stamped { l with entries := es ++ [e] } day).toJson.isWritable = true) :
    (stamped { l with entries := es } day').toJson.isWritable = true := by
  rw [isWritable_stamped_iff] at h ⊢
  obtain ⟨hframeworks, hentries, hcounts⟩ := h
  refine ⟨hframeworks, fun a ha => hentries a (List.mem_append_left [e] ha), ?_⟩
  rintro ⟨c, n⟩ hn
  have hnonneg : 0 ≤ n := nonneg_of_mem_categoryCounts _ _ hn
  -- The last entry raised at most one count, by one.
  rcases mem_categoryCounts_append hn with hsame | hmore
  · exact hcounts _ hsame
  · exact Text.isWritable_of_le (by simp only; omega) (hcounts _ hmore)

/-! ## Entries -/

theorem removeEntry_append {id : String} {es : List Entry} {e : Entry}
    (h : ∀ a ∈ es, a.id ≠ id) (he : e.id = id) : removeEntry id (es ++ [e]) = es := by
  induction es with
  | nil => rw [List.nil_append, removeEntry, if_pos he]
  | cons a rest ih =>
    obtain ⟨ha, hrest⟩ := List.forall_mem_cons.mp h
    rw [List.cons_append, removeEntry, if_neg ha, ih hrest]

theorem entry?_eq_none_iff {l : Ledger} {id : String} :
    l.entry? id = none ↔ ∀ e ∈ l.entries, e.id ≠ id := by
  unfold entry?
  simp

theorem entry?_append {l : Ledger} {es : List Entry} {e : Entry} (hentries : l.entries = es ++ [e])
    (h : ∀ a ∈ es, a.id ≠ e.id) : l.entry? e.id = some e := by
  have hnone : es.find? (·.id == e.id) = none := by simpa using h
  unfold entry?
  rw [hentries, List.find?_append, hnone, Option.none_or, List.find?_cons_of_pos (by simp)]

end Ledger

namespace Store

variable {s s' s'' : Store} {t t' t'' : Tree} {today : String} {data : Ledger}

/-! ## Writing -/

/-- What holds when a ledger was written. -/
structure Wrote (s : Store) (t : Tree) (today : String) (data : Ledger) (t' : Tree) (s' : Store) :
    Prop where
  countable : data.isCountable = true
  writable : (data.stamped today).toJson.isWritable = true
  replaced : replaceFile t s.path (data.stamped today).toJson.canonical = (t', .ok ())
  store : s' = { s with data := data.stamped today }

theorem save_eq_ok_iff :
    Store.save { s with data } t today = ⟨t', s', .ok ()⟩ ↔ Wrote s t today data t' s' := by
  unfold save
  by_cases hcountable : data.isCountable = true
  · simp only [hcountable, Bool.not_true, Bool.false_eq_true, if_false]
    by_cases hwritable : (data.stamped today).toJson.isWritable = true
    · simp only [hwritable, Bool.not_true, Bool.false_eq_true, if_false, Outcome.mk.injEq]
      constructor
      · rintro ⟨htree, hstore, hresult⟩
        exact ⟨hcountable, hwritable, Prod.ext htree hresult, hstore.symm⟩
      · rintro ⟨-, -, hreplaced, rfl⟩
        rw [hreplaced]
        exact ⟨rfl, rfl, rfl⟩
    · simp only [hwritable, Bool.not_false, if_true, Outcome.mk.injEq]
      exact ⟨nofun, fun h => absurd h.writable hwritable⟩
  · simp only [hcountable, Bool.not_false, if_true, Outcome.mk.injEq]
    exact ⟨nofun, fun h => absurd h.countable hcountable⟩

theorem commit_eq_ok_iff {α : Type} {result a : α} :
    s.commit t today data result = ⟨t', s', .ok a⟩ ↔ result = a ∧ Wrote s t today data t' s' := by
  unfold commit
  obtain ⟨u, x, r, hsave⟩ : ∃ u x r, Store.save { s with data } t today = ⟨u, x, r⟩ :=
    ⟨_, _, _, rfl⟩
  rw [hsave]
  cases r with
  | ok _ =>
    simp only [Outcome.mk.injEq, Except.ok.injEq]
    constructor
    · rintro ⟨rfl, rfl, hresult⟩
      exact ⟨hresult, save_eq_ok_iff.mp hsave⟩
    · rintro ⟨hresult, hwrote⟩
      rw [save_eq_ok_iff.mpr hwrote] at hsave
      cases hsave
      exact ⟨rfl, rfl, hresult⟩
  | error e =>
    simp only [Outcome.mk.injEq]
    refine ⟨nofun, fun h => ?_⟩
    rw [save_eq_ok_iff.mpr h.2] at hsave
    cases hsave

theorem withId_eq (s : Store) (e : Entry) : ∃ id, s.withId e = { e with id } := by
  unfold withId
  split
  · exact ⟨_, rfl⟩
  · exact ⟨e.id, rfl⟩

theorem add_eq_ok {entry : Entry} {id : String} (h : s.add t today entry = ⟨t', s', .ok id⟩) :
    id = (s.withId entry).id ∧
    (∀ e ∈ s.data.entries, e.id ≠ (s.withId entry).id) ∧
    s.data.find? (s.withId entry).file (s.withId entry).line (some (s.withId entry).category) =
      none ∧
    Wrote s t today { s.data with entries := s.data.entries ++ [s.withId entry] } t' s' := by
  unfold add at h
  split at h
  · cases h
  · simp only at h
    split at h
    · cases h
    · rename_i hid
      split at h
      · cases h
      · rename_i hlocation
        obtain ⟨hresult, hwrote⟩ := commit_eq_ok_iff.mp h
        have hnone : s.data.entry? (s.withId entry).id = none := by simpa using hid
        exact ⟨hresult.symm, Ledger.entry?_eq_none_iff.mp hnone, hlocation, hwrote⟩

end Store

namespace Approval

open Store

variable {s s' : Store} {t t' : Tree} {today : String} {root : Path} {file : String} {line : Int}
  {entry : Entry}

/-! ## Approving -/

/-- What holds when a line was approved and nothing else is relied on. -/
structure Granted (s : Store) (t : Tree) (today : String) (root : Path) (file : String) (line : Int)
    (t' : Tree) (s' : Store) (entry : Entry) : Prop where
  code : ∃ lines, t.sourceLines (pathOf root file) = .ok lines ∧
    Source.codeAt? lines line = some entry.approvedCodeSnapshot
  file_eq : entry.file = file
  line_eq : entry.line = line
  category_eq : entry.category = nullAccessCategory
  alone : entry.dependencies = []
  fit : entry.unfit = []
  freshId : ∀ e ∈ s.data.entries, e.id ≠ entry.id
  freeLocation : s.data.find? file line (some nullAccessCategory) = none
  wrote : Wrote s t today { s.data with entries := s.data.entries ++ [entry] } t' s'

theorem approvedCode_eq_ok {code : String} (h : approvedCode t root file line = .ok code) :
    ∃ lines, t.sourceLines (pathOf root file) = .ok lines ∧
      Source.codeAt? lines line = some code := by
  unfold approvedCode readLines at h
  cases hlines : t.sourceLines (pathOf root file) with
  | error e =>
    rw [hlines] at h
    cases h
  | ok lines =>
    rw [hlines] at h
    refine ⟨lines, rfl, ?_⟩
    cases hcode : Source.codeAt? lines line with
    | none => simp [hcode, bind, Except.bind] at h
    | some found =>
      simp only [hcode, bind, Except.bind, pure, Except.pure, Except.ok.injEq] at h
      rw [h]

theorem entryFor_eq_ok {r : Request} (h : entryFor t root today r = .ok entry) :
    ∃ code dependencies, approvedCode t root r.file r.line = .ok code ∧
      snapshots t root r.file r.dependencies = .ok dependencies ∧
      entry = { id := r.id, category := r.category, file := r.file, line := r.line,
                approvedCodeSnapshot := code, reason := r.reason, approvedDate := today,
                dependencies } := by
  unfold entryFor at h
  cases hcode : approvedCode t root r.file r.line with
  | error e =>
    simp only [hcode, bind, Except.bind] at h
    cases h
  | ok code =>
    cases hsnapshots : snapshots t root r.file r.dependencies with
    | error e =>
      simp only [hcode, hsnapshots, bind, Except.bind] at h
      cases h
    | ok dependencies =>
      simp only [hcode, hsnapshots, bind, Except.bind, pure, Except.pure, Except.ok.injEq] at h
      exact ⟨code, dependencies, rfl, rfl, h.symm⟩

theorem approve_eq_ok {r : Request} (h : approve s t today root r = ⟨t', s', .ok entry⟩) :
    ∃ given id, entryFor t root today r = .ok given ∧ entry = { given with id } ∧
      (∀ e ∈ s.data.entries, e.id ≠ entry.id) ∧
      s.data.find? entry.file entry.line (some entry.category) = none ∧
      Wrote s t today { s.data with entries := s.data.entries ++ [entry] } t' s' := by
  unfold approve at h
  cases hgiven : entryFor t root today r with
  | error e =>
    rw [hgiven] at h
    cases h
  | ok given =>
    rw [hgiven] at h
    rcases hadd : s.add t today given with ⟨u, x, e | id⟩
    · simp only [hadd] at h
      cases h
    · simp only [hadd, Outcome.mk.injEq, Except.ok.injEq] at h
      obtain ⟨rfl, rfl, hentry⟩ := h
      obtain ⟨rfl, hfresh, hfree, hwrote⟩ := add_eq_ok hadd
      have hentries : x.data.entries = s.data.entries ++ [s.withId given] := by
        rw [hwrote.store]
        rfl
      rw [Ledger.entry?_append hentries hfresh, Option.getD_some] at hentry
      subst hentry
      obtain ⟨id, hid⟩ := withId_eq s given
      exact ⟨given, id, rfl, hid, hfresh, hfree, hwrote⟩

theorem granted_of_approve {reason id : String}
    (h : approve s t today root { file, line, reason, id } = ⟨t', s', .ok entry⟩) :
    Granted s t today root file line t' s' entry := by
  obtain ⟨given, id', hgiven, rfl, hfresh, hfree, hwrote⟩ := approve_eq_ok h
  obtain ⟨code, dependencies, hcode, hsnapshots, rfl⟩ := entryFor_eq_ok hgiven
  cases hsnapshots
  exact ⟨approvedCode_eq_ok hcode, rfl, rfl, rfl, rfl, rfl, hfresh, hfree, hwrote⟩

/-! ## Removing -/

/-- An entry that was approved can be removed, and the entries are then those from before. -/
theorem remove_granted (h : Granted s t today root file line t' s' entry) (day : String) :
    ∃ t'' s'', s'.remove t' day entry.id = ⟨t'', s'', .ok true⟩ ∧
      Wrote s' t' day { s'.data with entries := s.data.entries } t'' s'' := by
  have hstore := h.wrote.store
  have hentries : s'.data.entries = s.data.entries ++ [entry] := by
    rw [hstore]
    rfl
  have hpath : s'.path = s.path := by rw [hstore]
  have hcountable : Ledger.isCountable { s'.data with entries := s.data.entries } = true := by
    have hall := h.wrote.countable
    rw [Ledger.isCountable, List.all_append, Bool.and_eq_true] at hall
    exact hall.1
  have hwritable :
      (Ledger.stamped { s'.data with entries := s.data.entries } day).toJson.isWritable =
      true := by
    rw [hstore]
    exact Ledger.isWritable_of_append h.wrote.writable
  obtain ⟨t'', hreplaced⟩ := replaceFile_again h.wrote.replaced
    (Ledger.stamped { s'.data with entries := s.data.entries } day).toJson.canonical
  have hwrote : Wrote s' t' day { s'.data with entries := s.data.entries } t''
      { s' with data := Ledger.stamped { s'.data with entries := s.data.entries } day } :=
    ⟨hcountable, hwritable, by rw [hpath]; exact hreplaced, rfl⟩
  refine ⟨t'', _, ?_, hwrote⟩
  rw [remove, Ledger.entry?_append hentries h.freshId]
  simp only [hentries, Ledger.removeEntry_append h.freshId rfl]
  exact commit_eq_ok_iff.mpr ⟨rfl, hwrote⟩

end Approval

end NullAccess
