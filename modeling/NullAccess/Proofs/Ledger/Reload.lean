import NullAccess.Proofs.Files.Content
import NullAccess.Proofs.Json.Distinct
import NullAccess.Proofs.Ledger.Operation

/-!
# Reading a ledger again

A ledger that was written is on file: whoever reads it there gets what is in memory, with the number
of entries of each category (`saved_of_wrote`).  And every ledger that is read is well kept, so that
it can be written and read again (`kept_of_load`).
-/

namespace NullAccess

/-! ## The counts -/

namespace Ledger

/-- The number of entries that a ledger states for a category. -/
def count? (l : Ledger) (category : String) : Option Int := Named.value? category l.categories

/-- The number of entries that a ledger has of a category. -/
def countOf (l : Ledger) (category : String) : Nat := l.entries.countP (·.category = category)

theorem countUp_eq_alter (category : String) (counts : List (String × Int)) :
    countUp category counts = Named.alter category (fun n => n.getD 0 + 1) counts := by
  induction counts with
  | nil => rfl
  | cons count rest ih => rw [countUp, Named.alter, ih, Option.getD_some]

theorem nodup_foldl_countUp (cs : List String) {counts : List (String × Int)}
    (h : (counts.map Prod.fst).Nodup) :
    ((cs.foldl (fun counts c => countUp c counts) counts).map Prod.fst).Nodup := by
  induction cs generalizing counts with
  | nil => exact h
  | cons c rest ih =>
    apply ih
    dsimp only
    rw [countUp_eq_alter]
    exact Named.nodup_alter h

theorem nodup_categoryCounts (l : Ledger) : (l.categoryCounts.map Prod.fst).Nodup :=
  nodup_foldl_countUp _ List.nodup_nil

/-- Each category that occurs adds its occurrences to its count. -/
theorem value?_foldl_countUp (c : String) (cs : List String) (counts : List (String × Int)) :
    Named.value? c (cs.foldl (fun counts c => countUp c counts) counts) =
      if cs.count c = 0 then Named.value? c counts
      else some ((Named.value? c counts).getD 0 + cs.count c) := by
  induction cs generalizing counts with
  | nil => simp
  | cons d rest ih =>
    rw [List.foldl_cons, ih, countUp_eq_alter, Named.value?_alter, List.count_cons]
    by_cases hd : d = c
    · subst hd
      by_cases hrest : rest.count d = 0
      · simp [hrest]
      · simp [hrest]
        omega
    · have hne : ¬ c = d := fun h => hd h.symm
      simp [hd, hne]

theorem filterMap_countedAs? {es : List Entry} (h : ∀ e ∈ es, e.unfit = []) :
    es.filterMap Entry.countedAs? = es.map (·.category) := by
  induction es with
  | nil => rfl
  | cons e rest ih =>
    obtain ⟨he, hrest⟩ := List.forall_mem_cons.mp h
    have hcounted : e.countedAs? = some e.category := by
      rw [Entry.countedAs?, Entry.unfit?, he]
      rfl
    rw [List.filterMap_cons_some hcounted, ih hrest, List.map_cons]

theorem value?_categoryCounts {l : Ledger} (h : ∀ e ∈ l.entries, e.unfit = []) (c : String) :
    Named.value? c l.categoryCounts =
      if l.countOf c = 0 then none else some (l.countOf c : Int) := by
  have hcount : (l.entries.map (·.category)).count c = l.countOf c := by
    rw [List.count, List.countP_map, countOf]
    exact List.countP_congr fun e _ => by simp
  rw [categoryCounts, filterMap_countedAs? h, value?_foldl_countUp, hcount]
  simp

/-! ## Equal ledgers -/

/-- Two ledgers that hold the same, with patterns and counts compared as maps. -/
structure Agrees (l l' : Ledger) : Prop where
  version : l.version = l'.version
  lastUpdated : l.lastUpdated = l'.lastUpdated
  entries : l.entries = l'.entries
  frameworks : ∀ name, l.framework? name = l'.framework? name
  categories : ∀ c, l.count? c = l'.count? c

theorem agrees_inOrder {l : Ledger} (h : l.WellKept) (hcounts : (l.categories.map Prod.fst).Nodup) :
    l.inOrder.Agrees l where
  version := rfl
  lastUpdated := rfl
  entries := rfl
  frameworks _ :=
    Named.value?_perm (Json.sortFields_perm l.frameworks) (Json.nodup_sortFields h.names)
  categories _ :=
    Named.value?_perm (Json.sortFields_perm l.categories) (Json.nodup_sortFields hcounts)

end Ledger

namespace Store

open NullAccess.Tree

variable {s s' : Store} {t t' : Tree} {path : Path} {today : String} {data : Ledger}

/-! ## What was written -/

/-- The file that was written stands where the path leads. -/
theorem locate_of_replaceFile {text : String} (h : replaceFile t path text = (t', .ok ())) :
    ∃ m, t'.locate path = .ok m ∧ t'.at? m = some (.file text.toUTF8) := by
  obtain ⟨t₁, t₂, -, -, hwrite, hrename⟩ := replaceFile_eq_ok_iff.mp h
  obtain ⟨l, hl, hfree, -, ht₂⟩ := write_eq_ok_iff.mp hwrite
  obtain ⟨l', m, c, hl', hm, -, hfile, hfree', ht'⟩ := rename_eq_ok_iff.mp hrename
  have hsame : l' = l := by
    rw [locate_of_dirs (write_keeps hwrite).dirs hl] at hl'
    cases hl'
    rfl
  have hcontent : c = text.toUTF8 := by
    rw [hsame, ht₂, at?_insert_self _ _ (ne_nil_of_at?_ne_dir hfree)] at hfile
    cases hfile
    rfl
  refine ⟨m, locate_of_dirs (rename_keeps hrename).dirs hm, ?_⟩
  rw [ht', ← hcontent]
  exact at?_insert_self _ _ (ne_nil_of_at?_ne_dir hfree')

/-- What a text is opened as. -/
def opened (path : Path) (today : String) : Option Ledger → Store × List Warning
  | some data => (⟨path, data⟩, [])
  | none => (⟨path, .empty today⟩, [.ledgerUnreadable])

theorem load_of_text {s : String} (hread : t.read path = .ok s.toUTF8) :
    load t path today = (parse today s.toList).map (opened path today) := by
  rw [load, probe_of_read hread]
  simp only [hread, Text.fromUTF8?_toUTF8]
  cases parse today s.toList with
  | error stop => rfl
  | ok found => cases found <;> rfl

theorem load_of_locate {m : Location} {text : String} (hlocate : t.locate path = .ok m)
    (hfile : t.at? m = some (.file text.toUTF8))
    (hparse : parse today text.toList = .ok (some data)) :
    load t path today = .ok (⟨path, data⟩, []) := by
  have hread : t.read path = .ok text.toUTF8 := by
    rw [Tree.read, hlocate]
    simp only [hfile]
  rw [load_of_text hread, hparse]
  rfl

/-- The ledger in memory is on file: on any day, reading it gives no warning and a ledger that holds
the same and states how many entries it has of each category. -/
def Saved (t : Tree) (s : Store) : Prop :=
  ∀ day, ∃ l, load t s.path day = .ok (⟨s.path, l⟩, []) ∧ l.Agrees s.data ∧
    ∀ c, l.count? c = if s.data.countOf c = 0 then none else some (s.data.countOf c : Int)

theorem saved_of_wrote (h : Wrote s t today data t' s') (hdata : data.WellKept) : Saved t' s' := by
  have hkept : (data.stamped today).WellKept := ⟨hdata.fit, hdata.names⟩
  have hcounts : ((data.stamped today).categories.map Prod.fst).Nodup :=
    data.nodup_categoryCounts
  obtain ⟨m, hlocate, hfile⟩ := locate_of_replaceFile h.replaced
  rw [h.store]
  intro day
  have hagrees := Ledger.agrees_inOrder hkept hcounts
  refine ⟨(data.stamped today).inOrder, ?_, hagrees, fun c => ?_⟩
  · exact load_of_locate hlocate hfile (parse_canonical hkept hcounts h.writable day)
  · rw [hagrees.categories c]
    exact Ledger.value?_categoryCounts hdata.fit c

end Store

/-! ## What is read -/

namespace Json

variable {α : Type}

theorem exists_of_mem_toList? {f : Json → Option α} {v : Json} {xs : List α}
    (h : toList? f v = some xs) {a : α} (ha : a ∈ xs) : ∃ w, f w = some a := by
  cases v with
  | arr items =>
    rw [toList?] at h
    induction items generalizing xs with
    | nil =>
      cases h
      cases ha
    | cons w rest ih =>
      simp only [List.mapM_cons, Option.bind_eq_bind, Option.bind_eq_some_iff, Option.pure_def,
        Option.some.injEq] at h
      obtain ⟨b, hb, ys, hys, rfl⟩ := h
      rcases List.mem_cons.mp ha with rfl | hrest
      · exact ⟨w, hb⟩
      · exact ih hrest hys
  | _ => cases h

theorem names_of_toMap? {f : Json → Option α} {fields : List (String × Json)}
    {xs : List (String × α)} (h : toMap? f (obj fields) = some xs) :
    xs.map Prod.fst = fields.map Prod.fst := by
  rw [toMap?] at h
  induction fields generalizing xs with
  | nil =>
    cases h
    rfl
  | cons field rest ih =>
    simp only [List.mapM_cons, Option.bind_eq_bind, Option.bind_eq_some_iff, Option.pure_def,
      Option.some.injEq, Option.map_eq_some_iff] at h
    obtain ⟨x, ⟨a, -, rfl⟩, ys, hys, rfl⟩ := h
    rw [List.map_cons, List.map_cons, ih hys]

theorem nodup_of_toMap? {f : Json → Option α} {v : Json} {xs : List (String × α)}
    (hv : Distinct v) (h : toMap? f v = some xs) : (xs.map Prod.fst).Nodup := by
  cases hv with
  | obj names _ =>
    rw [names_of_toMap? h]
    exact names
  | _ => cases h

end Json

theorem Entry.unfit_of_record {today : String} {v : Json} {e : Entry}
    (h : Json.record (ofFields? today) v = some e) : e.unfit = [] := by
  cases v with
  | obj fields =>
    simp only [Json.record, ofFields?, Option.bind_eq_bind, Option.bind_eq_some_iff,
      Option.pure_def, Option.some.injEq] at h
    obtain ⟨_, -, _, -, _, -, _, -, _, -, _, -, _, -, _, -, _, -, rfl⟩ := h
    rfl
  | _ => cases h

theorem Ledger.wellKept_of_record {today : String} {v : Json} {l : Ledger} (hv : Json.Distinct v)
    (h : Json.record (ofFields? today) v = some l) : l.WellKept := by
  cases hv with
  | obj names values =>
    simp only [Json.record, ofFields?, Option.bind_eq_bind, Option.bind_eq_some_iff,
      Option.pure_def, Option.some.injEq] at h
    obtain ⟨_, -, _, -, frameworks, hframeworks, entries, hentries, _, -, rfl⟩ := h
    constructor
    · intro e he
      rw [Json.want] at hentries
      split at hentries
      · cases hentries
        cases he
      · obtain ⟨w, hw⟩ := Json.exists_of_mem_toList? hentries he
        exact Entry.unfit_of_record hw
    · rw [Json.want] at hframeworks
      split at hframeworks
      · cases hframeworks
        exact List.nodup_nil
      · rename_i w hfield
        obtain ⟨field, hmem, rfl⟩ := Option.map_eq_some_iff.mp hfield
        exact Json.nodup_of_toMap? (values field (List.mem_of_find?_eq_some hmem)) hframeworks
  | _ => cases h

namespace Store

variable {s : Store} {t : Tree} {path : Path} {today : String}

theorem wellKept_of_parse {text : List Char} {l : Ledger} (h : parse today text = .ok (some l)) :
    l.WellKept := by
  unfold parse at h
  split at h
  · rename_i v hv
    exact Ledger.wellKept_of_record (Json.distinct_of_read hv) (Except.ok.inj h)
  · cases h
  · cases h
  · cases h

theorem wellKept_empty (day : String) : (Ledger.empty day).WellKept := ⟨nofun, List.nodup_nil⟩

theorem kept_of_load {warnings : List Warning} (h : load t path today = .ok (s, warnings)) :
    s.Kept path := by
  unfold load at h
  dsimp only at h
  split at h
  · cases h
  · cases h
    exact ⟨rfl, wellKept_empty today⟩
  · split at h
    · cases h
      exact ⟨rfl, wellKept_empty today⟩
    · split at h
      · cases h
      · split at h
        · cases h
        · rename_i hparse
          cases h
          exact ⟨rfl, wellKept_of_parse hparse⟩
        · cases h
          exact ⟨rfl, wellKept_empty today⟩

end Store

end NullAccess
