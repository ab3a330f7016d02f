import Mathlib.Logic.Relation
import Mathlib.Order.Bounds.Basic
import Mathlib.Order.Nat
import NullAccess.Proofs.Pattern.SearchPadded

/-!
# What a search finds

A pattern begins at a column if it has an end from there (`BeginsAt`).  A search finds the least
such column (`isLeast_of_find?`).  The search for all matches goes from left to right: every column
at which the pattern begins is where a match was found to begin, or it lies inside one
(`exists_of_beginsAt`).  Of a pattern that never begins inside a match of its own the search
therefore finds all beginnings (`mem_startCols_iff`).
-/

namespace NullAccess

/-- The place at a column of a text. -/
def Place.atColumn (t : List Char) (c : Nat) : Place :=
  { before := (t.take c).reverse, after := t.drop c }

namespace Pattern

variable {a : Pattern} {s u : Place} {t b r : List Char} {m : Match} {c n : Nat}

/-- The pattern has a match that begins at a column. -/
def BeginsAt (a : Pattern) (t : List Char) (c : Nat) : Prop :=
  c ≤ t.length ∧ a.ends (.atColumn t c) ≠ []

theorem atColumn_append (x r : List Char) :
    Place.atColumn (x ++ r) x.length = ⟨x.reverse, r, []⟩ := by
  rw [Place.atColumn, List.take_left, List.drop_left]

theorem column_atColumn (h : c ≤ t.length) : (Place.atColumn t c).column = c := by
  simp [Place.atColumn, Place.column, h]

/-! ## The first match -/

theorem findIn_eq_none_iff :
    a.findIn b r = none ↔ ∀ c ≤ r.length, a.ends ⟨(r.take c).reverse ++ b, r.drop c, []⟩ = [] := by
  induction r generalizing b with
  | nil =>
    rw [findIn_nil, matchAt_eq_none_iff]
    simp
  | cons d r ih =>
    have hboth : a.findIn b (d :: r) = none ↔
        a.ends ⟨b, d :: r, []⟩ = [] ∧ a.findIn (d :: b) r = none := by
      rw [findIn_cons, ← matchAt_eq_none_iff]
      cases a.matchAt ⟨b, d :: r, []⟩ <;> simp
    rw [hboth, ih]
    constructor
    · rintro ⟨hhere, hlater⟩ c hc
      cases c with
      | zero => exact hhere
      | succ c => simpa using hlater c (Nat.le_of_succ_le_succ hc)
    · intro h
      refine ⟨h 0 (Nat.zero_le _), fun c hc => ?_⟩
      simpa using h (c + 1) (Nat.succ_le_succ hc)

theorem findIn_eq_some (h : a.findIn b r = some m) :
    ∃ c ≤ r.length, m.first = ⟨(r.take c).reverse ++ b, r.drop c, []⟩ ∧
      ∀ d < c, a.ends ⟨(r.take d).reverse ++ b, r.drop d, []⟩ = [] := by
  induction r generalizing b with
  | nil =>
    rw [findIn_nil, matchAt_eq, Option.map_eq_some_iff] at h
    obtain ⟨v, -, rfl⟩ := h
    exact ⟨0, Nat.le_refl 0, rfl, nofun⟩
  | cons x r ih =>
    rw [findIn_cons] at h
    cases hhere : a.matchAt ⟨b, x :: r, []⟩ with
    | some found =>
      rw [hhere] at h
      cases h
      rw [matchAt_eq, Option.map_eq_some_iff] at hhere
      obtain ⟨v, -, rfl⟩ := hhere
      exact ⟨0, Nat.zero_le _, rfl, nofun⟩
    | none =>
      rw [hhere] at h
      obtain ⟨c, hc, hfirst, hbefore⟩ := ih h
      refine ⟨c + 1, Nat.succ_le_succ hc, by simpa using hfirst, fun d hd => ?_⟩
      cases d with
      | zero => exact matchAt_eq_none_iff.mp hhere
      | succ d => simpa using hbefore d (Nat.lt_of_succ_lt_succ hd)

/-- The place `c` columns behind another one. -/
theorem atColumn_add (s : Place) (c : Nat) :
    Place.atColumn s.whole (s.column + c) =
      ⟨(s.after.take c).reverse ++ s.before, s.after.drop c, []⟩ := by
  have htake : s.whole.take (s.column + c) = s.before.reverse ++ s.after.take c := by
    rw [Place.whole, Place.column, ← List.length_reverse, List.take_length_add_append]
  have hdrop : s.whole.drop (s.column + c) = s.after.drop c := by
    rw [Place.whole, Place.column, ← List.length_reverse, List.drop_length_add_append]
  rw [Place.atColumn, htake, hdrop, List.reverse_append, List.reverse_reverse]

/-- A search from a place on passes over all columns where the pattern does not begin. -/
theorem findFrom_eq_none_iff :
    a.findFrom s = none ↔ ∀ c, s.column ≤ c → ¬ a.BeginsAt s.whole c := by
  rw [findFrom, findIn_eq_none_iff]
  constructor
  · rintro h c hc ⟨hle, hbegins⟩
    obtain ⟨d, rfl⟩ := Nat.exists_eq_add_of_le hc
    rw [← column_add_after] at hle
    rw [atColumn_add] at hbegins
    exact hbegins (h d (by omega))
  · intro h c hc
    have hnot := h (s.column + c) (Nat.le_add_right _ _)
    rw [BeginsAt, atColumn_add, ← column_add_after] at hnot
    by_contra hends
    exact hnot ⟨by omega, hends⟩

theorem findFrom_eq_some (h : a.findFrom s = some m) :
    m.first = .atColumn s.whole m.startCol ∧ s.column ≤ m.startCol ∧
      ∀ c, s.column ≤ c → c < m.startCol → ¬ a.BeginsAt s.whole c := by
  obtain ⟨k, hk, hfirst, hbefore⟩ := findIn_eq_some h
  rw [← atColumn_add] at hfirst
  have hstart : m.startCol = s.column + k := by
    rw [Match.startCol, hfirst, column_atColumn]
    rw [← column_add_after]
    omega
  refine ⟨by rw [hstart, hfirst], by omega, fun c hc hlt hbegins => ?_⟩
  obtain ⟨d, rfl⟩ := Nat.exists_eq_add_of_le hc
  have hnone := hbefore d (by omega)
  rw [← atColumn_add] at hnone
  exact hbegins.2 hnone

theorem find?_eq_none_iff : a.find? t = none ↔ ∀ c, ¬ a.BeginsAt t c := by
  have hiff := findFrom_eq_none_iff (a := a) (s := .start t)
  simpa [find?, findFrom, Place.whole, Place.column] using hiff

theorem beginsAt_of_isMatch (h : IsMatch a t m) (hfirst : m.first = .atColumn t m.startCol) :
    a.BeginsAt t m.startCol := by
  refine ⟨h.startCol_le, ?_⟩
  rw [← hfirst]
  exact List.ne_nil_of_mem h.mem

/-- A search finds the least column at which the pattern begins. -/
theorem isLeast_of_find? (h : a.find? t = some m) : IsLeast {c | a.BeginsAt t c} m.startCol := by
  obtain ⟨hfirst, -, hbefore⟩ := findFrom_eq_some (s := .start t) h
  refine ⟨beginsAt_of_isMatch (isMatch_of_find? h) hfirst, fun c hc => ?_⟩
  by_contra hlt
  exact hbefore c (Nat.zero_le c) (Nat.lt_of_not_le hlt) hc

theorem find?_eq_some_iff_isLeast :
    (a.find? t).map Match.startCol = some c ↔ IsLeast {c | a.BeginsAt t c} c := by
  cases hm : a.find? t with
  | none => exact iff_of_false nofun fun hleast => find?_eq_none_iff.mp hm c hleast.1
  | some m =>
    have hleast := isLeast_of_find? hm
    rw [Option.map_some, Option.some_inj]
    exact ⟨fun heq => heq ▸ hleast, hleast.unique⟩

/-! ## All matches -/

/-- Matches are found from left to right, and each column at which the pattern begins is one where a
match was found to begin, or it lies inside a match. -/
theorem findAllFrom_spec (hreads : a.reads = true) (hn : s.after.length < n) :
    (∀ m ∈ a.search.findAllFrom n s, m.first = .atColumn s.whole m.startCol ∧
      s.column ≤ m.startCol) ∧
    (a.search.findAllFrom n s).Pairwise (fun m m' => m.stopCol ≤ m'.startCol) ∧
    ∀ c, s.column ≤ c → a.BeginsAt s.whole c →
      ∃ m ∈ a.search.findAllFrom n s, m.startCol = c ∨ m.startCol < c ∧ c < m.stopCol := by
  induction n generalizing s with
  | zero => cases hn
  | succ n ih =>
    rw [findAllFrom_succ hreads]
    cases hm : a.findFrom s with
    | none =>
      exact ⟨nofun, .nil, fun c hc hbegins => absurd hbegins (findFrom_eq_none_iff.mp hm c hc)⟩
    | some m =>
      have hmatch : IsMatch a s.whole m := isMatch_of_findIn hm
      obtain ⟨hfirst, hcol, hbefore⟩ := findFrom_eq_some hm
      have hlt := ends_lt hreads hmatch.mem
      have hle := after_of_findIn hm
      obtain ⟨hplaces, hordered, hcovered⟩ := ih (s := m.last) (by omega)
      rw [hmatch.whole_last] at hplaces hcovered
      have hstep : m.startCol < m.stopCol := by
        have hstart := hmatch.startCol_add_after
        have hstop := hmatch.stopCol_add_after
        omega
      refine ⟨fun m' hm' => ?_, ?_, fun c hc hbegins => ?_⟩
      · rcases List.mem_cons.mp hm' with rfl | hrest
        · exact ⟨hfirst, hcol⟩
        · obtain ⟨hfirst', hcol'⟩ := hplaces m' hrest
          exact ⟨hfirst', Nat.le_trans hcol (Nat.le_trans (Nat.le_of_lt hstep) hcol')⟩
      · exact List.pairwise_cons.mpr ⟨fun m' hm' => (hplaces m' hm').2, hordered⟩
      -- Columns up to the end of the first match are settled by it, the others by the rest.
      · rcases Nat.lt_or_ge c m.stopCol with hinside | hbehind
        · refine ⟨m, List.mem_cons_self, ?_⟩
          rcases Nat.lt_trichotomy c m.startCol with hless | heq | hmore
          · exact absurd hbegins (hbefore c hc hless)
          · exact .inl heq.symm
          · exact .inr ⟨hmore, hinside⟩
        · obtain ⟨m', hm', hcover⟩ := hcovered c hbehind hbegins
          exact ⟨m', List.mem_cons_of_mem m hm', hcover⟩

theorem first_of_mem_findAll (hreads : a.reads = true) (h : m ∈ a.findAll t) :
    m.first = .atColumn t m.startCol :=
  ((findAllFrom_spec (s := .start t) hreads (Nat.lt_succ_self _)).1 m h).1

theorem pairwise_findAll (hreads : a.reads = true) (t : List Char) :
    (a.findAll t).Pairwise fun m m' => m.stopCol ≤ m'.startCol :=
  (findAllFrom_spec (s := .start t) hreads (Nat.lt_succ_self _)).2.1

theorem exists_of_beginsAt (hreads : a.reads = true) (h : a.BeginsAt t c) :
    ∃ m ∈ a.findAll t, m.startCol = c ∨ m.startCol < c ∧ c < m.stopCol :=
  (findAllFrom_spec (s := .start t) hreads (Nat.lt_succ_self _)).2.2 c (Nat.zero_le c) h

/-- The pattern does not begin inside a match of its own. -/
def Apart (a : Pattern) (t : List Char) : Prop :=
  ∀ m ∈ a.findAll t, ∀ c, m.startCol < c → c < m.stopCol → ¬ a.BeginsAt t c

theorem mem_startCols_iff (hreads : a.reads = true) (h : a.Apart t) :
    c ∈ (a.findAll t).map Match.startCol ↔ a.BeginsAt t c := by
  rw [List.mem_map]
  constructor
  · rintro ⟨m, hm, rfl⟩
    exact beginsAt_of_isMatch (isMatch_of_mem_findAll hm) (first_of_mem_findAll hreads hm)
  · intro hc
    obtain ⟨m, hm, heq | ⟨hlt, hstop⟩⟩ := exists_of_beginsAt hreads hc
    · exact ⟨m, hm, heq⟩
    · exact absurd hc (h m hm c hlt hstop)

theorem pairwise_startCols (hreads : a.reads = true) (t : List Char) :
    ((a.findAll t).map Match.startCol).Pairwise (· < ·) := by
  rw [List.pairwise_map]
  refine (pairwise_findAll hreads t).imp_of_mem fun {m m'} hm _ hle => ?_
  have hmatch := isMatch_of_mem_findAll hm
  have hstart := hmatch.startCol_add_after
  have hstop := hmatch.stopCol_add_after
  have hlt := ends_lt hreads hmatch.mem
  omega

/-! ## Repetitions -/

theorem mem_ends_run {q : Char → Bool} :
    u ∈ (many (one q)).ends s ↔ ∃ w r, s.after = w ++ r ∧ (∀ x ∈ w, q x = true) ∧
      u = { s with before := w.reverse ++ s.before, after := r } := by
  obtain ⟨before, after, groups⟩ := s
  exact mem_rounds_one after before ' ' groups

/-- The ends after repetitions of a pattern that reads are those that a chain of its ends leads
to. -/
theorem mem_ends_many (hreads : a.reads = true) :
    u ∈ (many a).ends s ↔ Relation.ReflTransGen (fun s t => t ∈ a.ends s) s u := by
  constructor
  · intro hu
    exact rel_rounds (fun _ => .refl) Relation.ReflTransGen.trans
      (fun s t ht => .single ht) _ s u hu
  · intro hchain
    suffices hrounds : ∀ left : List Char, s.after.length ≤ left.length →
        u ∈ rounds a.ends left s from
      hrounds _ (Nat.le_succ _)
    induction hchain using Relation.ReflTransGen.head_induction_on with
    | refl =>
      intro left _
      cases left <;> simp [rounds]
    | @head s v hv _ ih =>
      intro left hleft
      have hlt := ends_lt hreads hv
      cases left with
      | nil =>
        rw [List.length_nil] at hleft
        omega
      | cons d left =>
        rw [List.length_cons] at hleft
        have hfurther : further s v = true := by simpa [further] using hlt
        rw [rounds, List.mem_append, List.mem_flatMap]
        exact .inl ⟨v, hv, by rw [if_pos hfurther]; exact ih left (by omega)⟩

end Pattern

end NullAccess
