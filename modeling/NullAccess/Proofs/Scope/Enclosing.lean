import NullAccess.Proofs.Analysis.Blocks

/-!
# Where the block around a place is closed

The search for guards counts braces by itself: up to a place to learn whether a block is open there,
and from the place on, starting anew, until that block is closed.  The scope knows the same from its
openings: the block around the place is the innermost opening there, and it is closed by the letter
that takes this opening off (`ClosedOn`).  The two agree at every place of every file
(`enclosing_end_is_where_popped`).
-/

namespace NullAccess

/-! ## The two parts of a file -/

namespace Letter

variable {lines : List Line} {n : Nat}

/-- The letters of a file before a column of line `n`. -/
def upTo (lines : List Line) (n col : Nat) : List Letter :=
  ofLines 1 (lines.take (n - 1)) ++ (ofLine (lines.getD (n - 1) []) n).take col

/-- The letters of a file from a column of line `n` on. -/
def onward (lines : List Line) (n col : Nat) : List Letter :=
  (ofLine (lines.getD (n - 1) []) n).drop col ++ ofLines (n + 1) (lines.drop n)

theorem upTo_append_onward (hn : 1 ≤ n ∧ n ≤ lines.length) (col : Nat) :
    upTo lines n col ++ onward lines n col = ofLines 1 lines := by
  have hlt : n - 1 < lines.length := by omega
  have hcount : (1 : Int) + ((lines.take (n - 1)).length : Int) = n := by
    rw [List.length_take]
    omega
  have hrest : lines.drop (n - 1) = lines.getD (n - 1) [] :: lines.drop n := by
    rw [List.drop_eq_getElem_cons hlt, show n - 1 + 1 = n by omega]
    simp [hlt]
  calc upTo lines n col ++ onward lines n col
      = ofLines 1 (lines.take (n - 1)) ++
          (ofLine (lines.getD (n - 1) []) n ++ ofLines (n + 1) (lines.drop n)) := by
        rw [upTo, onward, List.append_assoc, ← List.append_assoc (List.take _ _),
          List.take_append_drop]
    _ = ofLines 1 (lines.take (n - 1) ++ lines.drop (n - 1)) := by
        rw [ofLines_append, hcount, hrest, ofLines]
    _ = ofLines 1 lines := by rw [List.take_append_drop]

end Letter

/-! ## The counter over letters -/

namespace Guard

variable {inner : Nat} {n : Int}

/-- The line of the letter that closes the block around the beginning of some letters, `inner`
blocks deeper. -/
def closingOf (inner : Nat) : List Letter → Option Int
  | [] => none
  | x :: r =>
    if x.char = '{' then closingOf (inner + 1) r
    else if x.char = '}' then
      if inner = 0 then some x.line else closingOf (inner - 1) r
    else closingOf inner r

theorem closingOf_append {xs : List Letter} (hxs : ∀ x ∈ xs, x.line = n) (ys : List Letter) :
    closingOf inner (xs ++ ys) =
      match pass inner (xs.map (·.char)) with
      | none => some n
      | some k => closingOf k ys := by
  induction xs generalizing inner with
  | nil => rfl
  | cons x rest ih =>
    obtain ⟨hx, hrest⟩ := List.forall_mem_cons.mp hxs
    rw [List.cons_append, List.map_cons, closingOf]
    unfold pass
    by_cases hopen : x.char = '{'
    · rw [if_pos hopen, if_pos hopen]
      exact ih hrest
    · rw [if_neg hopen, if_neg hopen]
      by_cases hclose : x.char = '}'
      · rw [if_pos hclose, if_pos hclose]
        cases inner with
        | zero => rw [if_pos rfl, hx]
        | succ k => exact ih hrest
      · rw [if_neg hclose, if_neg hclose]
        exact ih hrest

theorem closingLine_eq (inner : Nat) (n : Int) (ls : List Line) :
    closingLine inner n ls = closingOf inner (Letter.ofLines n ls) := by
  induction ls generalizing inner n with
  | nil => rfl
  | cons l rest ih =>
    rw [closingLine, Letter.ofLines, closingOf_append (fun _ => Letter.line_of_mem_ofLine),
      Letter.map_char_ofLine]
    cases pass inner l with
    | none => rfl
    | some k => exact ih k (n + 1)

/-- The counter may start within a line. -/
theorem closingLine_drop (l : Line) (rest : List Line) (n : Int) (col : Nat) :
    closingLine 0 n (l.drop col :: rest) =
      closingOf 0 ((Letter.ofLine l n).drop col ++ Letter.ofLines (n + 1) rest) := by
  have hline : ∀ x ∈ (Letter.ofLine l n).drop col, x.line = n :=
    fun x hx => Letter.line_of_mem_ofLine (List.mem_of_mem_drop hx)
  rw [closingLine, closingOf_append hline, List.map_drop, Letter.map_char_ofLine]
  cases pass 0 (l.drop col) with
  | none => rfl
  | some k => exact closingLine_eq k (n + 1) rest

theorem getElem?_startDepthsFrom {ls : List Line} {i : Nat} (depth : Nat) (hi : i < ls.length) :
    (startDepthsFrom depth ls)[i]? = some ((ls.take i).foldl advance depth) := by
  induction ls generalizing depth i with
  | nil => exact absurd hi (Nat.not_lt_zero i)
  | cons l rest ih =>
    cases i with
    | zero => rfl
    | succ i => exact ih (advance depth l) (by simpa using hi)

end Guard

/-! ## The opening that is taken off -/

namespace Scope

variable {o : Opening} {below inner : List Opening} {s : Scope} {x : Letter} {xs : List Letter}
  {line : Int}

/-- The scope at a column of line `n` of a file. -/
def atPlace (lines : List Line) (n col : Nat) : Scope := readLetters {} (Letter.upTo lines n col)

/-- Of the letters that follow, one on a given line takes the opening `o` off those below it; up to
that letter they all stay. -/
def ClosedOn (o : Opening) (below : List Opening) (s : Scope) (xs : List Letter)
    (line : Int) : Prop :=
  ∃ between y rest, xs = between ++ y :: rest ∧ y.line = line ∧
    (∀ p, p <+: between → (o :: below) <:+ (s.readLetters p).openings) ∧
    (s.readLetters (between ++ [y])).openings = below

/-- The innermost block that is open is closed on a given line by the letters that follow. -/
def InnermostClosedOn (s : Scope) (xs : List Letter) (line : Int) : Prop :=
  ∃ o below, s.openings = o :: below ∧ ClosedOn o below s xs line

theorem innermostClosedOn_iff (hs : s.openings = o :: below) :
    s.InnermostClosedOn xs line ↔ ClosedOn o below s xs line := by
  refine ⟨?_, fun h => ⟨o, below, hs, h⟩⟩
  rintro ⟨o', below', hs', h⟩
  obtain ⟨rfl, rfl⟩ : o = o' ∧ below = below' := by simpa [hs] using hs'
  exact h

theorem ClosedOn.isSuffix (h : ClosedOn o below s xs line) : (o :: below) <:+ s.openings := by
  obtain ⟨between, y, rest, -, -, hstays, -⟩ := h
  exact hstays [] List.nil_prefix

theorem closedOn_cons (hs : (o :: below) <:+ s.openings) :
    ClosedOn o below s (x :: xs) line ↔
      ((s.readLetter x).openings = below ∧ x.line = line) ∨
      ClosedOn o below (s.readLetter x) xs line := by
  constructor
  · rintro ⟨between, y, rest, hsplit, hline, hstays, hoff⟩
    cases between with
    | nil =>
      cases hsplit
      exact .inl ⟨hoff, hline⟩
    | cons z between =>
      cases hsplit
      refine .inr ⟨between, y, rest, rfl, hline, fun p hp => ?_, hoff⟩
      exact hstays (x :: p) (List.cons_prefix_cons.mpr ⟨rfl, hp⟩)
  · rintro (⟨hoff, hline⟩ | ⟨between, y, rest, rfl, hline, hstays, hoff⟩)
    · refine ⟨[], x, xs, rfl, hline, fun p hp => ?_, hoff⟩
      rw [List.prefix_nil.mp hp]
      exact hs
    · refine ⟨x :: between, y, rest, rfl, hline, fun p hp => ?_, hoff⟩
      rcases List.prefix_cons_iff.mp hp with rfl | ⟨q, rfl, hq⟩
      · exact hs
      · exact hstays q hq

theorem openings_ne (hs : s.openings = inner ++ o :: below) : s.openings ≠ below := by
  intro heq
  have hlength := congrArg List.length hs
  rw [heq, List.length_append, List.length_cons] at hlength
  omega

/-- The counter of inner blocks is the number of openings above the one that is to be taken off. -/
theorem closingOf_eq_some_iff (hs : s.openings = inner ++ o :: below) (xs : List Letter) :
    Guard.closingOf inner.length xs = some line ↔ ClosedOn o below s xs line := by
  induction xs generalizing s inner with
  | nil =>
    refine ⟨fun h => (Option.some_ne_none line h.symm).elim, ?_⟩
    rintro ⟨between, y, rest, hsplit, -⟩
    simp at hsplit
  | cons x rest ih =>
    have hsuffix : (o :: below) <:+ s.openings := hs ▸ List.suffix_append inner _
    rw [closedOn_cons hsuffix, Guard.closingOf]
    obtain ⟨hx, hread⟩ | ⟨top, under, hx, hstack, hread⟩ | ⟨-, hstack, -⟩ |
        ⟨hopen, hclose, hread⟩ := readLetter_cases s x
    · have hgrown : (s.readLetter x).openings =
          (⟨s.depth + 1, x.line, x.snippet⟩ :: inner) ++ o :: below := by
        rw [hread, hs]
        rfl
      rw [if_pos hx, ← ih hgrown]
      simp [openings_ne hgrown]
    · have hleft : (s.readLetter x).openings = under := by rw [hread]
      rw [if_neg (by rw [hx]; decide), if_pos hx]
      cases inner with
      | nil =>
        -- The opening itself is taken off, and does not come back.
        obtain ⟨rfl, rfl⟩ : top = o ∧ under = below := by simpa [hstack] using hs
        have hgone : ¬ ClosedOn top under (s.readLetter x) rest line := by
          intro hlater
          have hlength := hlater.isSuffix.length_le
          rw [hleft, List.length_cons] at hlength
          omega
        simp [hleft, hgone]
      | cons i inner =>
        obtain ⟨rfl, rfl⟩ : top = i ∧ under = inner ++ o :: below := by simpa [hstack] using hs
        rw [← ih hleft]
        simp [openings_ne hleft]
    · rw [hs] at hstack
      simp at hstack
    · rw [if_neg hopen, if_neg hclose, hread, ih hs]
      simp [openings_ne hs]

end Scope

/-! ## The two agree -/

namespace Guard

variable {lines : List Line} {n : Nat}

theorem enclosingEnd_eq (hn : 1 ≤ n ∧ n ≤ lines.length) (col : Nat) :
    enclosingEnd lines n col =
      .ok (if (Scope.atPlace lines n col).depth = 0 then none
        else closingOf 0 (Letter.onward lines n col)) := by
  have hlt : n - 1 < lines.length := by omega
  have hbefore : (n : Int) - 1 = ((n - 1 : Nat) : Int) := by omega
  have hdepth : (startDepths lines)[n - 1]? = some ((lines.take (n - 1)).foldl advance 0) :=
    getElem?_startDepthsFrom 0 hlt
  have hhere : (Scope.atPlace lines n col).depth =
      advance ((lines.take (n - 1)).foldl advance 0) ((lines.getD (n - 1) []).take col) := by
    rw [Scope.atPlace, Letter.upTo, Scope.readLetters_append, ← Scope.readLines_eq,
      Scope.depth_readLetters, Scope.depth_readLines, List.map_take, Letter.map_char_ofLine]
    rfl
  have hline : lines[n - 1]? = some (lines.getD (n - 1) []) := by simp [hlt]
  unfold enclosingEnd
  rw [hbefore, Text.at?_ofNat, Text.at?_ofNat, hline, hdepth]
  dsimp only
  rw [blockEnd, Text.takeTo_ofNat, Text.dropTo_ofNat, ← hhere, following,
    if_pos (Int.natCast_nonneg n), Int.toNat_natCast, closingLine_drop]
  rfl

/-- The depths before the lines are those of the scope; and the line that is found to close the
block around a place is the one on which the scope, on its way through the file, takes off the
opening that is innermost at that place. -/
theorem enclosing_end_is_where_popped (hn : 1 ≤ n ∧ n ≤ lines.length) (col : Nat) :
    (startDepths lines)[n - 1]? = some (Scope.readLines {} 1 (lines.take (n - 1))).depth ∧
    (Scope.atPlace lines n col).readLetters (Letter.onward lines n col) =
      Scope.readLines {} 1 lines ∧
    ∃ found, enclosingEnd lines n col = .ok found ∧
      (∀ line, found = some line ↔
        (Scope.atPlace lines n col).InnermostClosedOn (Letter.onward lines n col) line) ∧
      (found = none ↔ (Scope.atPlace lines n col).openings = [] ∨
        ∀ line,
          ¬ (Scope.atPlace lines n col).InnermostClosedOn (Letter.onward lines n col) line) := by
  refine ⟨?_, ?_, _, enclosingEnd_eq hn col, ?_⟩
  · rw [Scope.depth_readLines]
    exact getElem?_startDepthsFrom 0 (by omega)
  · rw [Scope.atPlace, ← Scope.readLetters_append,
      Letter.upTo_append_onward hn, ← Scope.readLines_eq]
  · generalize Scope.atPlace lines n col = here
    -- Only the stack at the place and the letters behind it count from here on.
    generalize Letter.onward lines n col = rest
    have hfound : ∀ line, (if here.depth = 0 then none else closingOf 0 rest) = some line ↔
        here.InnermostClosedOn rest line := by
      intro line
      by_cases hopen : here.openings = []
      · have hdepth : here.depth = 0 := by rw [Scope.depth, hopen]; rfl
        simp [Scope.InnermostClosedOn, hdepth, hopen]
      · obtain ⟨o, below, hstack⟩ := List.exists_cons_of_ne_nil hopen
        have hdepth : here.depth ≠ 0 := by rw [Scope.depth, hstack]; simp
        have hnone : here.openings = [] ++ o :: below := hstack
        rw [if_neg hdepth, Scope.innermostClosedOn_iff hstack]
        exact Scope.closingOf_eq_some_iff hnone rest
    refine ⟨hfound, ?_⟩
    rw [Option.eq_none_iff_forall_ne_some]
    simp only [ne_eq, hfound]
    refine ⟨.inr, ?_⟩
    rintro (hopen | hnever)
    · rintro line ⟨o, below, hstack, -⟩
      rw [hopen] at hstack
      cases hstack
    · exact hnever

/-- A function with a block of its own, behind a brace that closes nothing. -/
def blockLines : List Line :=
  ["\x7d function f(u) \x7b".toList, "if (u) \x7b return; \x7d".toList,
    "u.a;".toList, "\x7d".toList]

theorem enclosing_end_is_where_popped_sample :
    (1 ≤ 3 ∧ 3 ≤ blockLines.length) ∧ enclosingEnd blockLines 3 2 = .ok (some 4) ∧
      (Scope.atPlace blockLines 3 2).InnermostClosedOn (Letter.onward blockLines 3 2) 4 := by
  have hn : 1 ≤ 3 ∧ 3 ≤ blockLines.length := by decide
  obtain ⟨-, -, found, hfound, hclosed, -⟩ := enclosing_end_is_where_popped hn 2
  have hend : enclosingEnd blockLines (3 : Nat) (2 : Nat) = .ok (some 4) := rfl
  have hsame : found = some 4 := Except.ok.inj (hfound.symm.trans hend)
  exact ⟨hn, hend, (hclosed 4).mp hsame⟩

end Guard

end NullAccess
