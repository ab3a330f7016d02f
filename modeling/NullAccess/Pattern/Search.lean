import NullAccess.Pattern.Lead

/-!
# Searching for a pattern

A search takes the first start that has an end, and there the preferred end.  It passes over starts
where something else stands than the pattern expects, and over the rest of a run from the beginning
of which there is no match.  Main statements: a match at a place goes to the preferred end, and the
first match in a text begins at its first place or else further on.
-/

namespace NullAccess.Pattern

/-! ## Matches -/

/-- A stretch that a pattern matched: where it starts and where it ends. -/
structure Match where
  first : Place
  last : Place
  deriving Repr

namespace Match

def startCol (m : Match) : Nat := m.first.column

def stopCol (m : Match) : Nat := m.last.column

/-- The text kept under a number, if that group took part in the match. -/
def group? (m : Match) (n : Nat) : Option (List Char) := m.last.group? n

def group (m : Match) (n : Nat) : List Char := (m.group? n).getD []

end Match

/-- A pattern made ready for a search: its machine, what has to stand where a match begins, and the
run that it begins with, if it does. -/
structure Search where
  machine : Machine
  heads : Expected
  lead : Option ((Char → Bool) × (Char → Bool))

namespace Search

def matchAt (x : Search) (s : Place) : Option Match :=
  (x.machine.run s some).map fun t => { first := s, last := t }

/-- Whether a character begins the run that the pattern begins with. -/
def begins (x : Search) (c : Char) : Bool := x.lead.any fun (p, _) => p c

def goesOn (x : Search) (c : Char) : Bool := x.lead.any fun (_, q) => q c

/-- The match at this very place, sought only if the text begins as expected. -/
def matchHere (x : Search) (s : Place) : Option Match :=
  if x.heads.allows s.after then x.matchAt s else none

/-- The first match in `after`, given what stands before it.  `passing` says that the place is
inside a run from the beginning of which there is no match. -/
def findIn (x : Search) : (passing : Bool) → (before after : List Char) → Option Match
  | _, before, [] => x.matchHere { before := before, after := [] }
  | passing, before, c :: r =>
    if passing && x.goesOn c then x.findIn true (c :: before) r
    else
      match x.matchHere { before := before, after := c :: r } with
      | some m => some m
      | none => x.findIn (x.begins c) (c :: before) r

/-- At most `n` matches from a place on, each beginning at or after the end of the one before; after
an empty match the search moves on by one character. -/
def findAllFrom (x : Search) : Nat → Place → List Match
  | 0, _ => []
  | n + 1, s =>
    match x.findIn false s.before s.after with
    | none => []
    | some m =>
      if further m.first m.last then m :: x.findAllFrom n m.last
      else if m.last.after.isEmpty then [m]
      else m :: x.findAllFrom n m.last.next

end Search

def search (a : Pattern) : Search :=
  { machine := a.machine none, heads := a.heads none, lead := a.firstRun? }

def matchAt (a : Pattern) (s : Place) : Option Match := a.search.matchAt s

def findIn (a : Pattern) (before after : List Char) : Option Match :=
  a.search.findIn false before after

def findFrom (a : Pattern) (s : Place) : Option Match := a.findIn s.before s.after

def find? (a : Pattern) (t : List Char) : Option Match := a.findIn [] t

def occursIn (a : Pattern) (t : List Char) : Bool := (a.find? t).isSome

def matchStart? (a : Pattern) (t : List Char) : Option Match := a.matchAt (Place.start t)

/-- All matches in a text, from left to right, without overlap. -/
def findAll (a : Pattern) (t : List Char) : List Match :=
  a.search.findAllFrom (t.length + 1) (Place.start t)

/-- The match at a place goes to the preferred end. -/
theorem matchAt_eq (a : Pattern) (s : Place) :
    a.matchAt s = (a.ends s).head?.map fun t => { first := s, last := t } := by
  rw [matchAt, search, Search.matchAt, run_eq a (respects_none _)]
  cases a.ends s <;> rfl

theorem matchAt_eq_none_of_heads {a : Pattern} {s : Place}
    (h : (a.heads none).allows s.after = false) : a.matchAt s = none := by
  rw [matchAt_eq]
  cases he : a.ends s with
  | nil => rfl
  | cons t _ =>
    have := heads_allows a (e := none) (s := s) (t := t) (by simp [he]) rfl
    simp [this] at h

theorem matchHere_eq (a : Pattern) (s : Place) : a.search.matchHere s = a.matchAt s := by
  unfold Search.matchHere
  split
  · rfl
  · next h => exact (matchAt_eq_none_of_heads (by simpa [search] using h)).symm

theorem matchAt_eq_none_iff {a : Pattern} {s : Place} : a.matchAt s = none ↔ a.ends s = [] := by
  rw [matchAt_eq]
  cases a.ends s <;> simp

/-- The text before a place ends inside a run from the beginning of which there is no match. -/
def Passed (a : Pattern) (before after : List Char) : Prop :=
  ∃ p q b c mid, a.firstRun? = some (p, q) ∧ before = mid.reverse ++ c :: b ∧ p c = true ∧
    (∀ x ∈ mid, q x = true) ∧ a.ends ⟨b, c :: (mid ++ after), []⟩ = []

/-- Inside such a run there is no match. -/
theorem Passed.matchAt_eq_none {a : Pattern} {b r : List Char} {d : Char}
    (h : Passed a b (d :: r)) (hd : a.search.goesOn d = true) :
    a.matchAt ⟨b, d :: r, []⟩ = none ∧ Passed a (d :: b) r := by
  obtain ⟨p, q, b, c, mid, hl, rfl, hc, hm, he⟩ := h
  have hd : q d = true := by simpa [Search.goesOn, search, hl] using hd
  constructor
  · rw [matchAt_eq_none_iff, List.eq_nil_iff_forall_not_mem]
    intro u hu
    obtain ⟨v, hv, _⟩ := mem_firstRun hl (k := []) hc hm hd hu
    simp [he] at hv
  · refine ⟨p, q, b, c, mid ++ [d], hl, by simp, hc, ?_, by simpa using he⟩
    intro x hx
    rcases List.mem_append.1 hx with hx | hx
    · exact hm x hx
    · simp_all

/-- Passing over a run loses no match. -/
theorem findIn_passing {a : Pattern} {t : List Char} : ∀ {b : List Char}, Passed a b t →
    a.search.findIn true b t = a.search.findIn false b t := by
  induction t with
  | nil => intro b _; rfl
  | cons d r ih =>
    intro b h
    -- A character that goes on with the run is passed over; any other is tried in both searches.
    by_cases hd : a.search.goesOn d = true
    · obtain ⟨hn, hp⟩ := h.matchAt_eq_none hd
      rw [← matchHere_eq] at hn
      simp only [Search.findIn, hd, hn, Bool.and_true, if_true, Bool.false_eq_true,
        if_false]
      cases a.search.begins d
      · exact ih hp
      · rfl
    · simp [Search.findIn, hd]

theorem findIn_nil (a : Pattern) (b : List Char) : a.findIn b [] = a.matchAt ⟨b, [], []⟩ :=
  matchHere_eq a _

/-- The first match begins here, or else further on. -/
theorem findIn_cons (a : Pattern) (b : List Char) (c : Char) (r : List Char) :
    a.findIn b (c :: r) = (a.matchAt ⟨b, c :: r, []⟩ <|> a.findIn (c :: b) r) := by
  simp only [findIn, Search.findIn, Bool.false_and, Bool.false_eq_true, if_false, matchHere_eq]
  cases h : a.matchAt ⟨b, c :: r, []⟩ with
  | some m => rfl
  | none =>
    show a.search.findIn (a.search.begins c) (c :: b) r = a.search.findIn false (c :: b) r
    cases hc : a.search.begins c with
    | false => rfl
    | true =>
      have hc : a.firstRun?.any (fun (p, _) => p c) = true := hc
      cases hl : a.firstRun? with
      | none => simp [hl] at hc
      | some pq =>
        exact findIn_passing ⟨pq.1, pq.2, b, c, [], hl, rfl, by simpa [hl] using hc, by simp,
          matchAt_eq_none_iff.1 h⟩

end NullAccess.Pattern
