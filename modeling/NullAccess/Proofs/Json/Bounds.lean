import NullAccess.Json.Reader

/-!
# What a confined reading admits

The text of a file is read only if its brackets are not nested too deeply and its integers are not
too long.  Both are properties of the value that is written there: its height, and whether its
integers can be written.  A value fits in the room of a reading when it has them (`Fits`), and then
so does each of its parts in the room that is left inside its brackets.
-/

namespace NullAccess.Json

/-! ## Numbers -/

theorem areWritable_eq (vs : List Json) : areWritable vs = vs.all isWritable := by
  induction vs with
  | nil => rfl
  | cons v rest ih => rw [areWritable, List.all_cons, ih]

theorem areWritableFields_eq (fields : List (String × Json)) :
    areWritableFields fields = fields.all (·.2.isWritable) := by
  induction fields with
  | nil => rfl
  | cons field rest ih => rw [areWritableFields, List.all_cons, ih]

/-! ## Nesting -/

mutual

/-- How many brackets of a value are open at once. -/
def height : Json → Nat
  | arr items => heightOfItems items + 1
  | obj fields => heightOfFields fields + 1
  | _ => 0

/-- The greatest height of an element. -/
def heightOfItems : List Json → Nat
  | [] => 0
  | v :: rest => max (height v) (heightOfItems rest)

/-- The greatest height of the value of a field. -/
def heightOfFields : List (String × Json) → Nat
  | [] => 0
  | (_, v) :: rest => max (height v) (heightOfFields rest)

end

@[simp] theorem height_null : height null = 0 := rfl

@[simp] theorem height_bool (b : Bool) : height (bool b) = 0 := rfl

@[simp] theorem height_int (n : Int) : height (int n) = 0 := rfl

@[simp] theorem height_str (s : String) : height (str s) = 0 := rfl

@[simp] theorem height_arr_le_iff {items : List Json} {d : Nat} :
    height (arr items) ≤ d + 1 ↔ ∀ v ∈ items, height v ≤ d := by
  rw [height, Nat.add_le_add_iff_right]
  induction items with
  | nil => simp [heightOfItems]
  | cons v rest ih => rw [heightOfItems, Nat.max_le, ih, List.forall_mem_cons]

@[simp] theorem height_obj_le_iff {fields : List (String × Json)} {d : Nat} :
    height (obj fields) ≤ d + 1 ↔ ∀ field ∈ fields, height field.2 ≤ d := by
  rw [height, Nat.add_le_add_iff_right]
  induction fields with
  | nil => simp [heightOfFields]
  | cons field rest ih => rw [heightOfFields, Nat.max_le, ih, List.forall_mem_cons]

/-! ## Room -/

/-- A value whose brackets and integers a reading admits that has some room. -/
def Fits (room : Option Nat) (v : Json) : Prop :=
  ∀ k, room = some k → height v ≤ k ∧ v.isWritable = true

theorem fits_none (v : Json) : Fits none v := fun _ h => nomatch h

theorem fits_some {k : Nat} {v : Json} (hheight : height v ≤ k) (hwritable : v.isWritable = true) :
    Fits (some k) v := by
  intro k' hk
  cases hk
  exact ⟨hheight, hwritable⟩

variable {room : Option Nat}

theorem Fits.arr {items : List Json} (h : Fits room (arr items)) :
    room ≠ some 0 ∧ ∀ v ∈ items, Fits (room.map (· - 1)) v := by
  cases room with
  | none => exact ⟨nofun, fun v _ => fits_none v⟩
  | some k =>
    obtain ⟨hheight, hwritable⟩ := h k rfl
    obtain ⟨k, rfl⟩ : ∃ d, k = d + 1 := ⟨k - 1, by rw [height] at hheight; omega⟩
    rw [height_arr_le_iff] at hheight
    rw [isWritable, areWritable_eq, List.all_eq_true] at hwritable
    exact ⟨nofun, fun v hv => fits_some (hheight v hv) (hwritable v hv)⟩

theorem Fits.obj {fields : List (String × Json)} (h : Fits room (obj fields)) :
    room ≠ some 0 ∧ ∀ field ∈ fields, Fits (room.map (· - 1)) field.2 := by
  cases room with
  | none => exact ⟨nofun, fun field _ => fits_none field.2⟩
  | some k =>
    obtain ⟨hheight, hwritable⟩ := h k rfl
    obtain ⟨k, rfl⟩ : ∃ d, k = d + 1 := ⟨k - 1, by rw [height] at hheight; omega⟩
    rw [height_obj_le_iff] at hheight
    rw [isWritable, areWritableFields_eq, List.all_eq_true] at hwritable
    exact ⟨nofun, fun field hfield => fits_some (hheight field hfield) (hwritable field hfield)⟩

theorem Fits.int {n : Int} (h : Fits room (int n)) :
    (room.isSome && !Text.isWritable n.natAbs) = false := by
  cases room with
  | none => rfl
  | some k =>
    have hwritable : Text.isWritable n.natAbs = true := (h k rfl).2
    simp [hwritable]

end NullAccess.Json
