import NullAccess.Scope

/-!
# The letters of a walk

A scope looks at one character after another, and of the line around it only at the number and the
beginning.  So a walk over lines is one walk over letters (`readLines_eq`), which may be cut
anywhere, also within a line.
-/

namespace NullAccess

/-- A list that is split at two members is split at the same one, or one of them stands behind the
other. -/
theorem split_cases {α : Type} {a a' b b' : List α} {x x' : α} (h : a ++ x :: b = a' ++ x' :: b') :
    (a = a' ∧ x = x' ∧ b = b') ∨ (∃ u, a' = a ++ x :: u ∧ b = u ++ x' :: b') ∨
      ∃ u, a = a' ++ x' :: u ∧ b' = u ++ x :: b := by
  rcases List.append_eq_append_iff.mp h with ⟨u, rfl, hrest⟩ | ⟨u, rfl, hrest⟩
  · cases u with
    | nil =>
      cases hrest
      exact .inl ⟨by simp, rfl, rfl⟩
    | cons z u =>
      cases hrest
      exact .inr (.inl ⟨u, rfl, rfl⟩)
  · cases u with
    | nil =>
      cases hrest
      exact .inl ⟨by simp, rfl, rfl⟩
    | cons z u =>
      cases hrest
      exact .inr (.inr ⟨u, rfl, rfl⟩)

/-- A character of a file, with the number of its line and what an opening keeps of that line. -/
structure Letter where
  char : Char
  line : Int
  snippet : String
  deriving DecidableEq, Repr, Inhabited

namespace Letter

variable {x : Letter} {l : Line} {ls : List Line} {n : Int}

/-- The letters of line `n`. -/
def ofLine (l : Line) (n : Int) : List Letter := l.map fun c => ⟨c, n, Scope.snippet l⟩

/-- The letters of the lines from line `n` on. -/
def ofLines (n : Int) : List Line → List Letter
  | [] => []
  | l :: rest => ofLine l n ++ ofLines (n + 1) rest

theorem map_char_ofLine (l : Line) (n : Int) : (ofLine l n).map (·.char) = l := by
  simp [ofLine, Function.comp_def]

theorem line_of_mem_ofLine (h : x ∈ ofLine l n) : x.line = n := by
  obtain ⟨c, -, rfl⟩ := List.mem_map.mp h
  rfl

theorem line_of_mem_ofLines (h : x ∈ ofLines n ls) : n ≤ x.line ∧ x.line < n + ls.length := by
  induction ls generalizing n with
  | nil => cases h
  | cons l rest ih =>
    rw [List.length_cons]
    rcases List.mem_append.mp h with hfirst | hrest
    · have hline := line_of_mem_ofLine hfirst
      omega
    · have hline := ih hrest
      omega

theorem ofLines_append (n : Int) (p q : List Line) :
    ofLines n (p ++ q) = ofLines n p ++ ofLines (n + p.length) q := by
  induction p generalizing n with
  | nil => simp [ofLines]
  | cons l rest ih =>
    have hcount : n + ((l :: rest).length : Int) = n + 1 + rest.length := by
      rw [List.length_cons]
      omega
    rw [List.cons_append, ofLines, ofLines, ih, hcount, List.append_assoc]

/-- The letters of a walk stand on lines whose numbers do not fall. -/
def Ascending (xs : List Letter) : Prop := xs.Pairwise fun x y => x.line ≤ y.line

theorem Ascending.behind {before behind : List Letter} (h : Ascending (before ++ x :: behind)) :
    Ascending behind :=
  (List.pairwise_cons.mp (List.pairwise_append.mp h).2.1).2

theorem ascending_ofLine (l : Line) (n : Int) : Ascending (ofLine l n) :=
  List.pairwise_of_forall_mem_list fun _ hx _ hy =>
    Int.le_of_eq ((line_of_mem_ofLine hx).trans (line_of_mem_ofLine hy).symm)

theorem ascending_ofLines (n : Int) (ls : List Line) : Ascending (ofLines n ls) := by
  induction ls generalizing n with
  | nil => exact .nil
  | cons l rest ih =>
    refine List.pairwise_append.mpr ⟨ascending_ofLine l n, ih (n + 1), fun x hx y hy => ?_⟩
    have hfirst := line_of_mem_ofLine hx
    have hrest := line_of_mem_ofLines hy
    omega

end Letter

namespace Scope

variable {s : Scope} {x : Letter} {o : Opening} {below : List Opening}

def readLetter (s : Scope) (x : Letter) : Scope := step x.line x.snippet s x.char

def readLetters (s : Scope) (xs : List Letter) : Scope := xs.foldl readLetter s

theorem readLetters_append (s : Scope) (xs ys : List Letter) :
    s.readLetters (xs ++ ys) = (s.readLetters xs).readLetters ys :=
  List.foldl_append

theorem readLetters_concat (s : Scope) (xs : List Letter) (x : Letter) :
    s.readLetters (xs ++ [x]) = (s.readLetters xs).readLetter x :=
  readLetters_append s xs [x]

theorem readLine_eq (s : Scope) (l : Line) (n : Int) :
    s.readLine l n = s.readLetters (Letter.ofLine l n) := by
  rw [readLetters, Letter.ofLine, List.foldl_map]
  rfl

theorem readLines_eq (s : Scope) (n : Int) (ls : List Line) :
    s.readLines n ls = s.readLetters (Letter.ofLines n ls) := by
  induction ls generalizing s n with
  | nil => rfl
  | cons l rest ih => rw [readLines, ih, readLine_eq, Letter.ofLines, readLetters_append]

/-! ## What a letter does -/

theorem readLetter_open (h : x.char = '{') :
    s.readLetter x = { s with openings := ⟨s.depth + 1, x.line, x.snippet⟩ :: s.openings } := by
  rw [readLetter, step, if_pos h]

theorem readLetter_close (h : x.char = '}') (hopen : s.openings = o :: below) :
    s.readLetter x = { s with openings := below, extents := s.extents.insert o.line x.line } := by
  rw [readLetter, step, if_neg (by rw [h]; decide), if_pos h, hopen]

theorem readLetter_stray (h : x.char = '}') (hopen : s.openings = []) :
    s.readLetter x = { s with warnings := s.warnings ++ [unbalanced x.line] } := by
  rw [readLetter, step, if_neg (by rw [h]; decide), if_pos h, hopen]

theorem readLetter_other (hopen : x.char ≠ '{') (hclose : x.char ≠ '}') : s.readLetter x = s := by
  rw [readLetter, step, if_neg hopen, if_neg hclose]

/-- The four things that a letter can do to a scope. -/
theorem readLetter_cases (s : Scope) (x : Letter) :
    (x.char = '{' ∧
      s.readLetter x = { s with openings := ⟨s.depth + 1, x.line, x.snippet⟩ :: s.openings }) ∨
    (∃ o below, x.char = '}' ∧ s.openings = o :: below ∧
      s.readLetter x = { s with openings := below, extents := s.extents.insert o.line x.line }) ∨
    (x.char = '}' ∧ s.openings = [] ∧
      s.readLetter x = { s with warnings := s.warnings ++ [unbalanced x.line] }) ∨
    (x.char ≠ '{' ∧ x.char ≠ '}' ∧ s.readLetter x = s) := by
  by_cases hopen : x.char = '{'
  · exact .inl ⟨hopen, readLetter_open hopen⟩
  · by_cases hclose : x.char = '}'
    · by_cases hstack : s.openings = []
      · exact .inr (.inr (.inl ⟨hclose, hstack, readLetter_stray hclose hstack⟩))
      · obtain ⟨o, below, hstack⟩ := List.exists_cons_of_ne_nil hstack
        exact .inr (.inl ⟨o, below, hclose, hstack, readLetter_close hclose hstack⟩)
    · exact .inr (.inr (.inr ⟨hopen, hclose, readLetter_other hopen hclose⟩))

end Scope

end NullAccess
