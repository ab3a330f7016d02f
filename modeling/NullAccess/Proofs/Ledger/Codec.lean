import NullAccess.Ledger.Store
import NullAccess.Proofs.Json.RoundTrip

/-!
# The ledger as text

A ledger is read back from its canonical text (`parse_canonical`), record by record: a record whose
values fit their fields is read back from its object with sorted fields.  Patterns and counts come
back in the order of their names, which as maps is no change.
-/

namespace NullAccess

namespace Json

variable {α : Type}

/-! ## Readers of lists and maps -/

theorem toList?_map {f : Json → Option α} {g : α → Json} {xs : List α}
    (h : ∀ a ∈ xs, f (g a) = some a) : toList? f (arr (xs.map g)) = some xs := by
  rw [toList?]
  induction xs with
  | nil => rfl
  | cons a rest ih =>
    obtain ⟨ha, hrest⟩ := List.forall_mem_cons.mp h
    simp [List.mapM_cons, ha, ih hrest]

theorem toMap?_map {f : Json → Option α} {g : α → Json} {xs : List (String × α)}
    (h : ∀ x ∈ xs, f (g x.2) = some x.2) :
    toMap? f (obj (xs.map fun x => (x.1, g x.2))) = some xs := by
  rw [toMap?]
  induction xs with
  | nil => rfl
  | cons x rest ih =>
    obtain ⟨hx, hrest⟩ := List.forall_mem_cons.mp h
    simp [List.mapM_cons, hx, ih hrest]

/-- A map is read back in the order of its names. -/
theorem toMap?_sorted {f : Json → Option α} {g : α → Json} {xs : List (String × α)}
    (h : ∀ x ∈ xs, f (sorted (g x.2)) = some x.2) :
    toMap? f (sorted (obj (xs.map fun x => (x.1, g x.2)))) = some (sortFields xs) := by
  rw [sorted_obj, map_sortFields, List.map_map]
  exact toMap?_map (g := sorted ∘ g) fun x hx => h x ((sortFields_perm xs).mem_iff.mp hx)

theorem orNull_ofOption (o : Option String) :
    orNull toText? (sorted (ofOption str o)) = some o := by
  cases o <;> rfl

theorem toList?_strs (xs : List String) : toList? toText? (sorted (strs xs)) = some xs := by
  rw [strs, sorted_arr, List.map_map]
  exact toList?_map fun _ _ => rfl

end Json

open Json

/-! ## Records -/

namespace Dependency

variable (d : Dependency)

theorem plain_toJson : Plain d.toJson := by
  simp [toJson]

theorem height_toJson : height d.toJson ≤ 1 := by
  simp [toJson]

theorem record_toJson : record ofFields? (sorted d.toJson) = some d := by
  have hnames := (plain_obj_iff.mp d.plain_toJson).1
  rw [toJson, sorted_obj, record, ofFields?]
  simp only [need, want, field?_sorted hnames]
  simp [field?, toText?, toInt?]

end Dependency

namespace Entry

variable {e : Entry}

theorem toJson_of_unfit_eq_nil (h : e.unfit = []) :
    e.toJson =
      obj [("id", str e.id), ("category", str e.category), ("file", str e.file),
        ("line", int e.line), ("approved_code_snapshot", str e.approvedCodeSnapshot),
        ("reason", str e.reason), ("approved_date", str e.approvedDate),
        ("dependencies", arr (e.dependencies.map Dependency.toJson)),
        ("last_validated_date", ofOption str e.lastValidatedDate)] := by
  rw [toJson, h, List.foldl_nil]

theorem plain_toJson (h : e.unfit = []) : Plain e.toJson := by
  rw [toJson_of_unfit_eq_nil h]
  cases e.lastValidatedDate <;> simp [ofOption, Dependency.plain_toJson]

theorem height_toJson (h : e.unfit = []) : height e.toJson ≤ 3 := by
  rw [toJson_of_unfit_eq_nil h]
  cases e.lastValidatedDate <;> simp [ofOption, Dependency.height_toJson]

theorem record_toJson (h : e.unfit = []) (today : String) :
    record (ofFields? today) (sorted e.toJson) = some e := by
  have hplain := plain_toJson h
  rw [toJson_of_unfit_eq_nil h] at hplain ⊢
  have hnames := (plain_obj_iff.mp hplain).1
  have hdependencies : toList? (record Dependency.ofFields?)
      (arr (e.dependencies.map (sorted ∘ Dependency.toJson))) = some e.dependencies :=
    toList?_map fun d _ => d.record_toJson
  rw [sorted_obj, record, ofFields?]
  simp only [need, want, field?_sorted hnames]
  simp [field?, toText?, toInt?, hdependencies, orNull_ofOption, ← h]

end Entry

namespace FrameworkStats

variable (s : FrameworkStats)

theorem plain_toJson : Plain s.toJson := by
  simp [toJson]

theorem height_toJson : height s.toJson ≤ 1 := by
  simp [toJson]

theorem record_toJson : record ofFields? (sorted s.toJson) = some s := by
  have hnames := (plain_obj_iff.mp s.plain_toJson).1
  rw [toJson, sorted_obj, record, ofFields?]
  simp only [want, field?_sorted hnames]
  simp [field?, toInt?]

end FrameworkStats

namespace FrameworkPattern

variable (p : FrameworkPattern)

theorem plain_toJson : Plain p.toJson := by
  simp [toJson, strs, FrameworkStats.plain_toJson]

theorem height_toJson : height p.toJson ≤ 3 := by
  have hstats : height p.stats.toJson ≤ 2 := Nat.le_succ_of_le p.stats.height_toJson
  simp [toJson, strs, hstats]

theorem record_toJson (today : String) :
    record (ofFields? today) (sorted p.toJson) = some p := by
  have hnames := (plain_obj_iff.mp p.plain_toJson).1
  have hsignatures : toList? (toList? toText?) (arr (p.signatures.map (sorted ∘ strs))) =
      some p.signatures := toList?_map fun xs _ => toList?_strs xs
  rw [toJson, sorted_obj, record, ofFields?]
  simp only [need, want, field?_sorted hnames]
  simp [field?, toText?, toBool?, hsignatures, p.stats.record_toJson]

end FrameworkPattern

/-! ## The ledger -/

namespace Ledger

variable {l : Ledger}

/-- A ledger whose entries hold values that fit and whose patterns have distinct names.  Every
ledger that was read is such a one. -/
structure WellKept (l : Ledger) : Prop where
  fit : ∀ e ∈ l.entries, e.unfit = []
  names : (l.frameworks.map Prod.fst).Nodup

/-- The ledger as it is read back, with its patterns and counts in the order of their names. -/
def inOrder (l : Ledger) : Ledger :=
  { l with frameworks := sortFields l.frameworks, categories := sortFields l.categories }

theorem plain_toJson (h : l.WellKept) (hcounts : (l.categories.map Prod.fst).Nodup) :
    Plain l.toJson := by
  have hframeworks : Plain (obj (l.frameworks.map fun x => (x.1, x.2.toJson))) := by
    refine plain_obj_iff.mpr ⟨?_, ?_⟩
    · rw [List.map_map]
      exact h.names
    · exact List.forall_mem_map.mpr fun x _ => x.2.plain_toJson
  have hentries : Plain (arr (l.entries.map Entry.toJson)) :=
    plain_arr_iff.mpr (List.forall_mem_map.mpr fun e he => Entry.plain_toJson (h.fit e he))
  have hcategories : Plain (obj (l.categories.map fun x => (x.1, int x.2))) := by
    refine plain_obj_iff.mpr ⟨?_, ?_⟩
    · rw [List.map_map]
      exact hcounts
    · exact List.forall_mem_map.mpr fun x _ => .int x.2
  rw [toJson, plain_obj_iff]
  simp [hframeworks, hentries, hcategories, -plain_obj_iff, -plain_arr_iff]

theorem height_toJson (h : l.WellKept) : height l.toJson ≤ 5 := by
  have hframeworks : height (obj (l.frameworks.map fun x => (x.1, x.2.toJson))) ≤ 4 :=
    height_obj_le_iff.mpr (List.forall_mem_map.mpr fun x _ => x.2.height_toJson)
  have hentries : height (arr (l.entries.map Entry.toJson)) ≤ 4 :=
    height_arr_le_iff.mpr (List.forall_mem_map.mpr fun e he => Entry.height_toJson (h.fit e he))
  have hcategories : height (obj (l.categories.map fun x => (x.1, int x.2))) ≤ 4 :=
    height_obj_le_iff.mpr (List.forall_mem_map.mpr fun x _ => Nat.zero_le 3)
  rw [toJson, height_obj_le_iff]
  simp [hframeworks, hentries, hcategories, -height_obj_le_iff, -height_arr_le_iff]

theorem record_toJson (h : l.WellKept) (hcounts : (l.categories.map Prod.fst).Nodup)
    (today : String) : record (ofFields? today) (sorted l.toJson) = some l.inOrder := by
  have hnames := (plain_obj_iff.mp (plain_toJson h hcounts)).1
  have hframeworks : toMap? (record (FrameworkPattern.ofFields? today))
      (sorted (obj (l.frameworks.map fun x => (x.1, x.2.toJson)))) =
        some (sortFields l.frameworks) :=
    toMap?_sorted fun x _ => x.2.record_toJson today
  have hentries : toList? (record (Entry.ofFields? today))
      (arr (l.entries.map (sorted ∘ Entry.toJson))) = some l.entries :=
    toList?_map fun e he => Entry.record_toJson (h.fit e he) today
  have hcategories : toMap? toInt? (sorted (obj (l.categories.map fun x => (x.1, int x.2)))) =
      some (sortFields l.categories) := toMap?_sorted fun _ _ => rfl
  rw [toJson, sorted_obj, record, ofFields?]
  simp only [want, field?_sorted hnames]
  simp [field?, toText?, hframeworks, hentries, hcategories, inOrder]

end Ledger

/-- A ledger that can be written is read back from its canonical text. -/
theorem Store.parse_canonical {l : Ledger} (h : l.WellKept)
    (hcounts : (l.categories.map Prod.fst).Nodup) (hwritable : l.toJson.isWritable = true)
    (today : String) : parse today l.toJson.canonical.toList = .ok (some l.inOrder) := by
  have hplain := Ledger.plain_toJson h hcounts
  have hheight : height l.toJson ≤ maxNesting := by
    have hle := Ledger.height_toJson h
    rw [maxNesting]
    omega
  rw [parse, parseFile_canonical hplain hheight hwritable]
  simp only [Ledger.record_toJson h hcounts]

end NullAccess
