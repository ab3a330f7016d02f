import Mathlib.Data.List.Nodup

/-!
# Named values

The fields of an object, the patterns of a ledger and its counts are lists of values with names.  As
long as each name occurs once, such a list is a map: the order of its elements does not matter to
what a name stands for (`value?_perm`).  A value is changed in its place or put at the end
(`alter`), which keeps the names distinct.
-/

namespace NullAccess.Named

variable {α : Type} {name : String} {xs ys : List (String × α)}

/-- The value that a name stands for. -/
def value? (name : String) (xs : List (String × α)) : Option α := (xs.find? (·.1 == name)).map (·.2)

@[simp] theorem value?_nil : value? name ([] : List (String × α)) = none := rfl

theorem value?_cons (x : String × α) (xs : List (String × α)) :
    value? name (x :: xs) = if x.1 = name then some x.2 else value? name xs := by
  by_cases h : x.1 = name <;> simp [value?, h]

theorem value?_eq_some_iff (h : (xs.map Prod.fst).Nodup) {a : α} :
    value? name xs = some a ↔ (name, a) ∈ xs := by
  induction xs with
  | nil => simp
  | cons x rest ih =>
    obtain ⟨n, b⟩ := x
    rw [List.map_cons, List.nodup_cons] at h
    rw [value?_cons, List.mem_cons, Prod.mk.injEq]
    by_cases hn : n = name
    · subst hn
      have hnone : (n, a) ∉ rest := fun hmem => h.1 (List.mem_map.mpr ⟨(n, a), hmem, rfl⟩)
      simp [hnone, eq_comm]
    · have hne : ¬ name = n := fun heq => hn heq.symm
      simp [hn, hne, ih h.2]

theorem eq_of_mem (h : (xs.map Prod.fst).Nodup) {a b : α} (ha : (name, a) ∈ xs)
    (hb : (name, b) ∈ xs) : a = b := by
  have hvalue := (value?_eq_some_iff h).mpr ha
  rw [(value?_eq_some_iff h).mpr hb] at hvalue
  exact (Option.some.inj hvalue).symm

/-- Where each name occurs once, the order does not matter. -/
theorem value?_perm (hperm : xs.Perm ys) (h : (xs.map Prod.fst).Nodup) :
    value? name xs = value? name ys := by
  have h' : (ys.map Prod.fst).Nodup := (hperm.map Prod.fst).nodup_iff.mp h
  apply Option.ext
  intro a
  rw [value?_eq_some_iff h, value?_eq_some_iff h', hperm.mem_iff]

/-- The values with that of a name changed in its place, or put at the end if there is none. -/
def alter (name : String) (f : Option α → α) : List (String × α) → List (String × α)
  | [] => [(name, f none)]
  | x :: rest => if x.1 = name then (x.1, f (some x.2)) :: rest else x :: alter name f rest

variable {f : Option α → α}

theorem mem_alter {x : String × α} (h : x ∈ alter name f xs) :
    (∃ o, x = (name, f o)) ∨ x ∈ xs := by
  induction xs with
  | nil => exact .inl ⟨none, List.mem_singleton.mp h⟩
  | cons first rest ih =>
    rw [alter] at h
    split at h
    · rename_i hfirst
      rcases List.mem_cons.mp h with rfl | hrest
      · exact .inl ⟨some first.2, by rw [hfirst]⟩
      · exact .inr (List.mem_cons_of_mem _ hrest)
    · rcases List.mem_cons.mp h with rfl | hrest
      · exact .inr List.mem_cons_self
      · exact (ih hrest).imp_right (List.mem_cons_of_mem _)

theorem nodup_alter (h : (xs.map Prod.fst).Nodup) : ((alter name f xs).map Prod.fst).Nodup := by
  induction xs with
  | nil => simp [alter]
  | cons first rest ih =>
    rw [List.map_cons, List.nodup_cons] at h
    rw [alter]
    split
    · exact List.nodup_cons.mpr h
    · rename_i hfirst
      rw [List.map_cons, List.nodup_cons]
      refine ⟨fun hmem => ?_, ih h.2⟩
      obtain ⟨x, hx, hname⟩ := List.mem_map.mp hmem
      rcases mem_alter hx with ⟨o, rfl⟩ | hrest
      · exact hfirst hname.symm
      · exact h.1 (List.mem_map.mpr ⟨x, hrest, hname⟩)

theorem value?_alter (n : String) (xs : List (String × α)) :
    value? n (alter name f xs) = if n = name then some (f (value? name xs)) else value? n xs := by
  induction xs with
  | nil =>
    rw [alter, value?_cons, value?_nil, value?_nil]
    simp only [eq_comm]
  | cons first rest ih =>
    rw [alter]
    by_cases hn : n = name
    · subst hn
      by_cases hfirst : first.1 = n <;> simp [hfirst, value?_cons, ih]
    · have hne : ¬ name = n := fun h => hn h.symm
      by_cases hfirst : first.1 = name <;> simp [hfirst, hn, hne, value?_cons, ih]

end NullAccess.Named
