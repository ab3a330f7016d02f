import NullAccess.Proofs.Json.Sorted

/-!
# Distinct names

Whatever a text denotes, each of its objects names a field once (`distinct_of_read`): a name that
comes again replaces the value of the first one.
-/

namespace NullAccess.Json

/-- The values whose objects name each field once. -/
inductive Distinct : Json → Prop where
  | null : Distinct null
  | bool (b : Bool) : Distinct (bool b)
  | int (n : Int) : Distinct (int n)
  | real (r : RealNumber) : Distinct (real r)
  | str (s : String) : Distinct (str s)
  | broken : Distinct broken
  | arr {items : List Json} (h : ∀ v ∈ items, Distinct v) : Distinct (arr items)
  | obj {fields : List (String × Json)} (names : (fields.map Prod.fst).Nodup)
      (h : ∀ field ∈ fields, Distinct field.2) : Distinct (obj fields)

/-- Fields that may stand in an object. -/
structure DistinctFields (fields : List (String × Json)) : Prop where
  names : (fields.map Prod.fst).Nodup
  values : ∀ field ∈ fields, Distinct field.2

theorem DistinctFields.setField (name : String) {v : Json} {fields : List (String × Json)}
    (h : DistinctFields fields) (hv : Distinct v) : DistinctFields (setField name v fields) := by
  rw [setField_eq_alter]
  refine ⟨Named.nodup_alter h.names, fun field hfield => ?_⟩
  rcases Named.mem_alter hfield with ⟨-, rfl⟩ | hmem
  · exact hv
  · exact h.values field hmem

theorem distinct_ofChars (cs : List (Option Char)) : Distinct (ofChars cs) := by
  unfold ofChars
  split
  · exact .str _
  · exact .broken

theorem distinct_of_readWord {t rest : List Char} {v : Json} (h : readWord t = some (v, rest)) :
    Distinct v := by
  obtain ⟨⟨word, w⟩, hmem, hread⟩ := List.exists_of_findSome?_eq_some h
  obtain ⟨r, -, hw⟩ := Option.map_eq_some_iff.mp hread
  cases hw
  simp only [List.mem_cons, Prod.mk.injEq, List.not_mem_nil, or_false] at hmem
  obtain ⟨-, rfl⟩ | ⟨-, rfl⟩ | ⟨-, rfl⟩ | ⟨-, rfl⟩ | ⟨-, rfl⟩ | ⟨-, rfl⟩ := hmem <;> constructor

theorem eq_ok_of_map {α β : Type} {f : α → β} {x : Except Flaw α} {b : β} (h : x.map f = .ok b) :
    ∃ a, x = .ok a ∧ f a = b := by
  cases x with
  | error flaw => cases h
  | ok a => exact ⟨a, rfl, Except.ok.inj h⟩

theorem distinct_of_readNumber {confined : Bool} {t rest : List Char} {v : Json}
    (h : readNumber confined t = .ok (v, rest)) : Distinct v := by
  unfold readNumber at h
  simp only at h
  split at h
  · cases h
  · split at h
    · obtain ⟨w, hw, heq⟩ := eq_ok_of_map h
      cases heq
      unfold readInteger at hw
      split at hw
      · cases hw
      · cases hw
        exact .int _
    · cases h
      exact .real _

/-- The three readers give distinct names as long as they take at most `n` steps. -/
structure ReadsDistinct (n : Nat) : Prop where
  value : ∀ {room t v rest}, readValue n room t = .ok (v, rest) → Distinct v
  items : ∀ {room t vs rest}, readItems n room t = .ok (vs, rest) → ∀ v ∈ vs, Distinct v
  fields : ∀ {room held t fields rest}, DistinctFields held →
    readFields n room held t = .ok (fields, rest) → DistinctFields fields

theorem ReadsDistinct.value_succ {n : Nat} (ih : ReadsDistinct n) {room : Option Nat}
    {t rest : List Char} {v : Json} (h : readValue (n + 1) room t = .ok (v, rest)) :
    Distinct v := by
  rw [readValue.eq_def] at h
  simp only at h
  split at h
  · split at h
    · cases h
      exact distinct_ofChars _
    · cases h
  · split at h
    · cases h
    · split at h
      · cases h
        exact .arr nofun
      · obtain ⟨⟨vs, r⟩, hread, hv⟩ := eq_ok_of_map h
        cases hv
        exact .arr (ih.items hread)
  · split at h
    · cases h
    · split at h
      · cases h
        exact .obj List.nodup_nil nofun
      · obtain ⟨⟨fields, r⟩, hread, hv⟩ := eq_ok_of_map h
        cases hv
        have hnone : DistinctFields [] := ⟨List.nodup_nil, nofun⟩
        have hdistinct := ih.fields hnone hread
        exact .obj hdistinct.names hdistinct.values
  · split at h
    · rename_i hword
      cases h
      exact distinct_of_readWord hword
    · exact distinct_of_readNumber h

theorem ReadsDistinct.items_succ {n : Nat} (ih : ReadsDistinct n) {room : Option Nat}
    {t rest : List Char} {vs : List Json} (h : readItems (n + 1) room t = .ok (vs, rest)) :
    ∀ v ∈ vs, Distinct v := by
  rw [readItems] at h
  cases hread : readValue n room t with
  | error flaw => simp [hread] at h
  | ok found =>
    obtain ⟨v, r⟩ := found
    have hv := ih.value hread
    simp only [hread] at h
    split at h
    · cases h
      simpa using hv
    · obtain ⟨⟨ws, r'⟩, hrest, hvs⟩ := eq_ok_of_map h
      cases hvs
      exact List.forall_mem_cons.mpr ⟨hv, ih.items hrest⟩
    · cases h

theorem ReadsDistinct.fields_succ {n : Nat} (ih : ReadsDistinct n) {room : Option Nat}
    {held fields : List (String × Json)} {t rest : List Char} (hheld : DistinctFields held)
    (h : readFields (n + 1) room held t = .ok (fields, rest)) : DistinctFields fields := by
  rw [readFields.eq_def] at h
  simp only at h
  split at h
  · split at h
    · cases h
    · rename_i name r _
      split at h
      · rename_i r₂ _
        cases hread : readValue n room (skip r₂) with
        | error flaw => simp [hread] at h
        | ok found =>
          obtain ⟨v, r₃⟩ := found
          simp only [hread] at h
          have hv : Distinct (if isText name then v else broken) := by
            split
            · exact ih.value hread
            · exact .broken
          have hset := DistinctFields.setField (textOf name) hheld hv
          split at h
          · cases h
            exact hset
          · exact ih.fields hset h
          · cases h
      · cases h
  · cases h

theorem readsDistinct (n : Nat) : ReadsDistinct n := by
  induction n with
  | zero => exact ⟨nofun, nofun, fun _ => nofun⟩
  | succ n ih => exact ⟨ih.value_succ, ih.items_succ, ih.fields_succ⟩

theorem distinct_of_read {room : Option Nat} {t : List Char} {v : Json} (h : read room t = .ok v) :
    Distinct v := by
  unfold read at h
  split at h
  · cases h
  · rename_i hread
    split at h
    · cases h
      exact (readsDistinct _).value hread
    · cases h

end NullAccess.Json
