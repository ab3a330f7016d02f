import NullAccess.Proofs.Pattern.Padded

/-!
# What a match reads and keeps

Of most patterns it can be told from their classes and groups what their matches read, and which
texts they keep.  Such a pattern is plain for a choice of classes and groups, and what a single
character and a group keep, each of its matches keeps (`rel_of_plain`).
-/

namespace NullAccess.Pattern

open Text

variable {a b : Pattern} {s u : Place} {n : Nat} {c : Char}

/-- Whether the pattern is made of characters of such classes and groups of such numbers, and looks
elsewhere only to rule something out. -/
def plain (classes : (Char → Bool) → Bool) (groups : Nat → Bool) : Pattern → Bool
  | nothing => true
  | one p => classes p
  | seq a b => a.plain classes groups && b.plain classes groups
  | alt a b => a.plain classes groups && b.plain classes groups
  | many a => a.plain classes groups
  | few a => a.plain classes groups
  | group n a => groups n && a.plain classes groups
  | start => true
  | stop => true
  | border _ => true
  | ahead wanted _ => !wanted
  | behind _ _ => true
  | _ => false

theorem rel_of_plain {classes : (Char → Bool) → Bool} {groups : Nat → Bool}
    {R : Place → Place → Prop} (hrefl : ∀ s, R s s) (htrans : ∀ {s t u}, R s t → R t u → R s u)
    (hone : ∀ p, classes p = true → ∀ s, ∀ u ∈ (one p).ends s, R s u)
    (hgroup : ∀ n, groups n = true → ∀ s u : Place, R s u →
      R s { u with groups := (n, s.after, u.after) :: u.groups })
    (a : Pattern) (h : a.plain classes groups = true) : ∀ s, ∀ u ∈ a.ends s, R s u := by
  have hcheck : ∀ (s : Place) (c : Bool), ∀ u ∈ (if c then [s] else []), R s u := by
    intro s c u hu
    cases c with
    | true =>
      rw [List.mem_singleton.mp hu]
      exact hrefl s
    | false => cases hu
  induction a with
  | nothing => exact fun s => hcheck s true
  | one p => exact hone p h
  | seq a b iha ihb =>
    obtain ⟨ha, hb⟩ := Bool.and_eq_true_iff.mp h
    intro s u hu
    obtain ⟨v, hv, hu⟩ := List.mem_flatMap.mp hu
    exact htrans (iha ha s v hv) (ihb hb v u hu)
  | alt a b iha ihb =>
    obtain ⟨ha, hb⟩ := Bool.and_eq_true_iff.mp h
    intro s u hu
    rcases List.mem_append.mp hu with hu | hu
    · exact iha ha s u hu
    · exact ihb hb s u hu
  | many a ih => exact fun s => rel_rounds hrefl htrans (ih h) _ s
  | few a ih => exact fun s => rel_roundsFew hrefl htrans (ih h) _ s
  | group n a ih =>
    obtain ⟨hn, ha⟩ := Bool.and_eq_true_iff.mp h
    intro s u hu
    obtain ⟨v, hv, rfl⟩ := List.mem_map.mp hu
    exact hgroup n hn s v (ih ha s v hv)
  | start => exact fun s => hcheck s _
  | stop => exact fun s => hcheck s _
  | border wanted => exact fun s => hcheck s _
  | ahead wanted a _ =>
    cases wanted with
    | true => cases h
    | false =>
      intro s u hu
      rw [ends] at hu
      exact hcheck s _ u hu
  | behind wanted p => exact fun s => hcheck s _
  | times | upTo | upToFew | atomic | back | again | given => cases h

/-! ## Groups that are left alone -/

/-- Whether nothing is kept under a number. -/
def leaves (n : Nat) (a : Pattern) : Bool := a.plain (fun _ => true) (· != n)

theorem group?_of_leaves (h : a.leaves n = true) (hu : u ∈ a.ends s) : u.group? n = s.group? n := by
  refine rel_of_plain (R := fun s u => u.group? n = s.group? n) (fun _ => rfl)
    (fun h h' => h'.trans h) (fun p _ s u hu => ?_) (fun m hm s u hsame => ?_) a h s u hu
  · obtain ⟨c, r, -, -, rfl⟩ := mem_ends_one.mp hu
    rfl
  · have hne : (m == n) = false := by simpa using hm
    rw [← hsame]
    simp only [Place.group?, List.find?_cons, hne]

/-! ## Characters that are not read -/

/-- Whether no match reads a character. -/
def avoids (c : Char) (a : Pattern) : Bool := a.plain (fun p => !p c) (fun _ => true)

theorem exists_read_of_avoids (h : a.avoids c = true) (hu : u ∈ a.ends s) :
    ∃ r, s.after = r ++ u.after ∧ c ∉ r := by
  refine rel_of_plain (R := fun s u => ∃ r, s.after = r ++ u.after ∧ c ∉ r)
    (fun s => ⟨[], rfl, List.not_mem_nil⟩) ?_ (fun p hp s u hu => ?_)
    (fun _ _ _ _ h => h) a h s u hu
  · rintro s t u ⟨r, hr, hc⟩ ⟨r', hr', hc'⟩
    refine ⟨r ++ r', by rw [hr, hr', List.append_assoc], ?_⟩
    simp [hc, hc']
  · obtain ⟨d, r, hafter, hd, rfl⟩ := mem_ends_one.mp hu
    refine ⟨[d], hafter, ?_⟩
    intro hmem
    rw [← List.mem_singleton.mp hmem] at hd
    rw [hd] at hp
    cases hp

/-! ## Names -/

/-- A group that reads a run keeps it. -/
theorem exists_run_of_group {p q : Char → Bool}
    (hu : u ∈ (group n (one p ++ many (one q))).ends s) :
    ∃ c x, u.group? n = some (c :: x) ∧ p c = true ∧ ∀ d ∈ x, q d = true := by
  obtain ⟨v, hv, rfl⟩ := List.mem_map.mp hu
  obtain ⟨v₁, hv₁, hrun⟩ := mem_ends_seq.mp hv
  obtain ⟨c, r, hafter, hc, rfl⟩ := mem_ends_one.mp hv₁
  obtain ⟨x, t, hr, hx, rfl⟩ := (mem_rounds_one r (c :: s.before) ' ' s.groups).mp hrun
  have htext : s.after.take (s.after.length - t.length) = c :: x := by
    rw [hafter, hr, ← List.cons_append, List.length_append, Nat.add_sub_cancel, List.take_left]
  exact ⟨c, x, by simp [Place.group?, htext], hc, hx⟩

/-- A group that reads a name keeps it. -/
theorem exists_ink_of_run {p q : Char → Bool} (hp : rejectsBlanks p = true)
    (hq : rejectsBlanks q = true) (hu : u ∈ (group n (one p ++ many (one q))).ends s) :
    ∃ name, u.group? n = some name ∧ IsInk name := by
  obtain ⟨c, x, hgroup, hc, hx⟩ := exists_run_of_group hu
  refine ⟨c :: x, hgroup, List.cons_ne_nil c x, fun d hd => ?_⟩
  rcases List.mem_cons.mp hd with rfl | hd
  · exact not_blank_of_rejectsBlanks hp hc
  · exact not_blank_of_rejectsBlanks hq (hx d hd)

end NullAccess.Pattern
