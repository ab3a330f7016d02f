import NullAccess.Json.Printer
import NullAccess.Json.Reader
import NullAccess.Proofs.Named

/-!
# Values with sorted fields

The canonical text of a value shows its fields in the order of their names, so what can be read back
from it is the value with sorted fields (`sorted`).  Where every object names each field once,
sorting changes no field: a name is looked up with the same result before and after
(`field?_sortFields`).
-/

namespace NullAccess.Json

variable {α β : Type} {name : String} {fields : List (String × α)}

/-! ## Sorting the fields of an object -/

theorem sortFields_perm (fields : List (String × α)) : (sortFields fields).Perm fields :=
  List.mergeSort_perm _ _

theorem map_sortFields (f : α → β) (fields : List (String × α)) :
    sortFields (fields.map fun field => (field.1, f field.2)) =
      (sortFields fields).map fun field => (field.1, f field.2) := by
  rw [sortFields, sortFields, List.map_mergeSort]
  exact fun _ _ _ _ => rfl

theorem nodup_sortFields (h : (fields.map Prod.fst).Nodup) :
    ((sortFields fields).map Prod.fst).Nodup :=
  ((sortFields_perm fields).map Prod.fst).nodup_iff.mpr h

theorem field?_map (f : Json → Json) (fields : List (String × Json)) :
    field? name (fields.map fun field => (field.1, f field.2)) = (field? name fields).map f := by
  simp [field?, Function.comp_def]

theorem field?_sortFields {fields : List (String × Json)} (h : (fields.map Prod.fst).Nodup) :
    field? name (sortFields fields) = field? name fields :=
  Named.value?_perm (sortFields_perm fields) (nodup_sortFields h)

theorem setField_eq_alter (name : String) (v : Json) (fields : List (String × Json)) :
    setField name v fields = Named.alter name (fun _ => v) fields := by
  induction fields with
  | nil => rfl
  | cons field rest ih => rw [setField, Named.alter, ih]

theorem field?_setField (name other : String) (v : Json) (fields : List (String × Json)) :
    field? name (setField other v fields) =
      if name = other then some v else field? name fields := by
  rw [setField_eq_alter]
  exact Named.value?_alter name fields

theorem field?_append (name : String) (xs ys : List (String × Json)) :
    field? name (xs ++ ys) = (field? name xs).or (field? name ys) := by
  rw [field?, List.find?_append, Option.map_or]
  rfl

theorem field?_singleton (name : String) (x : String × Json) :
    field? name [x] = if name = x.1 then some x.2 else none := by
  by_cases h : name = x.1
  · simp [h, field?]
  · have hne : (x.1 == name) = false := by simpa using Ne.symm h
    simp [h, hne, field?]

theorem field?_filter_ne (name other : String) (fields : List (String × Json)) :
    field? name (fields.filter (·.1 != other)) =
      if name = other then none else field? name fields := by
  simp only [field?, List.find?_filter]
  split
  · rename_i heq
    rw [Option.map_eq_none_iff, List.find?_eq_none]
    simp [heq]
  · rename_i hne
    congr 2
    funext a
    by_cases ha : a.1 = name <;> simp [ha, hne]

theorem setField_of_not_mem {v : Json} {fields : List (String × Json)}
    (h : name ∉ fields.map Prod.fst) : setField name v fields = fields ++ [(name, v)] := by
  induction fields with
  | nil => rfl
  | cons field rest ih =>
    obtain ⟨n, w⟩ := field
    rw [List.map_cons, List.mem_cons, not_or] at h
    have hne : ¬ n = name := fun heq => h.1 heq.symm
    rw [setField, if_neg hne, ih h.2, List.cons_append]

/-! ## Sorting at every level -/

/-- The values that the canonical text determines: those without numbers with a point and without
broken strings, where each object names a field once. -/
inductive Plain : Json → Prop where
  | null : Plain null
  | bool (b : Bool) : Plain (bool b)
  | int (n : Int) : Plain (int n)
  | str (s : String) : Plain (str s)
  | arr {items : List Json} (h : ∀ v ∈ items, Plain v) : Plain (arr items)
  | obj {fields : List (String × Json)} (names : (fields.map Prod.fst).Nodup)
      (h : ∀ field ∈ fields, Plain field.2) : Plain (obj fields)

@[simp] theorem plain_null : Plain null := .null

@[simp] theorem plain_bool (b : Bool) : Plain (bool b) := .bool b

@[simp] theorem plain_int (n : Int) : Plain (int n) := .int n

@[simp] theorem plain_str (s : String) : Plain (str s) := .str s

@[simp] theorem plain_arr_iff {items : List Json} : Plain (arr items) ↔ ∀ v ∈ items, Plain v := by
  constructor
  · rintro ⟨⟩
    assumption
  · exact .arr

@[simp] theorem plain_obj_iff {fields : List (String × Json)} :
    Plain (obj fields) ↔ (fields.map Prod.fst).Nodup ∧ ∀ field ∈ fields, Plain field.2 := by
  constructor
  · rintro ⟨⟩
    constructor <;> assumption
  · exact fun h => .obj h.1 h.2

mutual

/-- The value with the fields of every object in the order of their names. -/
def sorted : Json → Json
  | arr items => arr (sortedItems items)
  | obj fields => obj (sortFields (sortedFields fields))
  | v => v

/-- The elements of an array, sorted. -/
def sortedItems : List Json → List Json
  | [] => []
  | v :: rest => sorted v :: sortedItems rest

/-- The values of an object, sorted. -/
def sortedFields : List (String × Json) → List (String × Json)
  | [] => []
  | (name, v) :: rest => (name, sorted v) :: sortedFields rest

end

theorem sortedItems_eq (items : List Json) : sortedItems items = items.map sorted := by
  induction items with
  | nil => rfl
  | cons v rest ih => rw [sortedItems, List.map_cons, ih]

theorem sortedFields_eq (fields : List (String × Json)) :
    sortedFields fields = fields.map fun field => (field.1, sorted field.2) := by
  induction fields with
  | nil => rfl
  | cons field rest ih => rw [sortedFields, List.map_cons, ih]

@[simp] theorem sorted_null : sorted null = null := rfl

@[simp] theorem sorted_bool (b : Bool) : sorted (bool b) = bool b := rfl

@[simp] theorem sorted_int (n : Int) : sorted (int n) = int n := rfl

@[simp] theorem sorted_str (s : String) : sorted (str s) = str s := rfl

@[simp] theorem sorted_arr (items : List Json) : sorted (arr items) = arr (items.map sorted) := by
  rw [sorted, sortedItems_eq]

theorem sorted_obj (fields : List (String × Json)) :
    sorted (obj fields) = obj ((sortFields fields).map fun field => (field.1, sorted field.2)) := by
  rw [sorted, sortedFields_eq, map_sortFields]

/-- A field of an object with sorted fields is the sorted field. -/
theorem field?_sorted {fields : List (String × Json)} (h : (fields.map Prod.fst).Nodup) :
    field? name ((sortFields fields).map fun field => (field.1, sorted field.2)) =
      (field? name fields).map sorted := by
  rw [field?_map, field?_sortFields h]

end NullAccess.Json
