import Mathlib.Data.List.Induction
import NullAccess.Proofs.Marker.Discovery
import NullAccess.Proofs.Marker.Layout

/-!
# Blocks of comment lines

A comment line stands in one run of comment lines that goes on neither up nor down (`exists_isRun`).
The block above the line behind such a run is the whole run and nothing else: its texts from top to
bottom, and the number of its first line (`blockAbove_run`).
-/

namespace NullAccess.Marker

open Text

variable {lines before run rest : List Line} {l : Line} {k : Nat}

/-! ## Comment lines -/

/-- A line that begins with `//`. -/
def IsComment (l : Line) : Prop := ['/', '/'] <+: trimLeft l

/-- The text of a line that begins with `//`. -/
def commentText (l : Line) : List Char := trim ((trimLeft l).drop 2)

theorem commentText?_of_isComment (hl : '\n' ∉ l) (h : IsComment l) :
    commentText? l = some (commentText l) := by
  rw [commentText?_eq hl]
  exact if_pos h

theorem commentText?_eq_none_iff (hl : '\n' ∉ l) : commentText? l = none ↔ ¬ IsComment l := by
  refine ⟨fun hnone h => ?_, commentText?_of_not_slashes⟩
  rw [commentText?_of_isComment hl h] at hnone
  cases hnone

/-! ## Runs -/

/-- A run of comment lines that goes on neither up nor down, with the lines before and behind it. -/
structure IsRun (lines before run rest : List Line) : Prop where
  split : lines = before ++ run ++ rest
  nonempty : run ≠ []
  comments : ∀ l ∈ run, IsComment l
  above : ∀ l ∈ before.getLast?, ¬ IsComment l
  below : ∀ l ∈ rest.head?, ¬ IsComment l

/-- The comment lines at the end of a list. -/
theorem exists_comments_above (lines : List Line) :
    ∃ before run, lines = before ++ run ∧ (∀ l ∈ run, IsComment l) ∧
      ∀ l ∈ before.getLast?, ¬ IsComment l := by
  induction lines using List.reverseRecOn with
  | nil => exact ⟨[], [], rfl, nofun, nofun⟩
  | append_singleton lines l ih =>
    by_cases hl : IsComment l
    · obtain ⟨before, run, rfl, hrun, habove⟩ := ih
      refine ⟨before, run ++ [l], List.append_assoc .., fun l' hl' => ?_, habove⟩
      rcases List.mem_append.mp hl' with hold | hnew
      · exact hrun l' hold
      · rwa [List.mem_singleton.mp hnew]
    · refine ⟨lines ++ [l], [], (List.append_nil _).symm, nofun, ?_⟩
      rw [List.getLast?_concat]
      rintro _ ⟨⟩
      exact hl

/-- The comment lines at the head of a list. -/
theorem exists_comments_below (lines : List Line) :
    ∃ run rest, lines = run ++ rest ∧ (∀ l ∈ run, IsComment l) ∧
      ∀ l ∈ rest.head?, ¬ IsComment l := by
  induction lines with
  | nil => exact ⟨[], [], rfl, nofun, nofun⟩
  | cons l lines ih =>
    by_cases hl : IsComment l
    · obtain ⟨run, rest, rfl, hrun, hbelow⟩ := ih
      exact ⟨l :: run, rest, rfl, List.forall_mem_cons.mpr ⟨hl, hrun⟩, hbelow⟩
    · refine ⟨[], l :: lines, rfl, nofun, ?_⟩
      rintro _ ⟨⟩
      exact hl

/-- Every comment line stands in a run. -/
theorem exists_isRun (hk : lines[k]? = some l) (hl : IsComment l) :
    ∃ before run rest, IsRun lines before run rest ∧
      before.length ≤ k ∧ k < before.length + run.length := by
  obtain ⟨hlt, rfl⟩ := List.getElem?_eq_some_iff.mp hk
  obtain ⟨before, upper, hupper, huppers, habove⟩ := exists_comments_above (lines.take k)
  obtain ⟨lower, rest, hlower, hlowers, hbelow⟩ := exists_comments_below (lines.drop (k + 1))
  have hlength : before.length + upper.length = k := by
    rw [← List.length_append, ← hupper, List.length_take_of_le (Nat.le_of_lt hlt)]
  refine ⟨before, upper ++ lines[k] :: lower, rest, ⟨?_, ?_, ?_, habove, hbelow⟩, by omega, ?_⟩
  · calc lines = lines.take k ++ lines[k] :: lines.drop (k + 1) := by
          rw [← List.drop_eq_getElem_cons hlt, List.take_append_drop]
      _ = before ++ (upper ++ lines[k] :: lower) ++ rest := by
          rw [hupper, hlower]
          simp
  · exact List.append_ne_nil_of_right_ne_nil _ (List.cons_ne_nil _ _)
  · intro l' hl'
    rcases List.mem_append.mp hl' with hmem | hmem
    · exact huppers l' hmem
    · exact (List.forall_mem_cons (p := IsComment)).mpr ⟨hl, hlowers⟩ l' hmem
  · rw [List.length_append, List.length_cons]
    omega

/-! ## The block above a line -/

theorem leadingTexts_append (h : ∀ l ∈ run, commentText? l = some (commentText l))
    (rest : List Line) :
    leadingTexts (run ++ rest) = run.map commentText ++ leadingTexts rest := by
  induction run with
  | nil => rfl
  | cons l run ih =>
    obtain ⟨hl, hrun⟩ := List.forall_mem_cons.mp h
    rw [List.cons_append, leadingTexts, hl, ih hrun]
    rfl

theorem leadingTexts_eq_nil (h : ∀ l ∈ lines.head?, commentText? l = none) :
    leadingTexts lines = [] := by
  cases lines with
  | nil => rfl
  | cons l lines => rw [leadingTexts, h l rfl]

theorem leadingTexts_run (hrun : ∀ l ∈ run, commentText? l = some (commentText l))
    (habove : ∀ l ∈ before.getLast?, ¬ IsComment l) :
    leadingTexts (before ++ run).reverse = (run.map commentText).reverse := by
  have hend : leadingTexts before.reverse = [] := by
    refine leadingTexts_eq_nil fun l hl => commentText?_of_not_slashes (habove l ?_)
    rwa [List.head?_reverse] at hl
  rw [List.reverse_append,
    leadingTexts_append (fun l hl => hrun l (List.mem_reverse.mp hl)), hend, List.append_nil,
    List.map_reverse]

/-- The block above the line behind a run is the run. -/
theorem blockAbove_run (hne : run ≠ []) (hrun : ∀ l ∈ run, commentText? l = some (commentText l))
    (habove : ∀ l ∈ before.getLast?, ¬ IsComment l) (rest : List Line) :
    blockAbove (before ++ run ++ rest) (before.length + run.length + 1 : Nat) =
      .ok { texts := run.map commentText, firstLine := some (before.length + 1 : Nat) } := by
  have htake : (before ++ run ++ rest).take (before.length + run.length) = before ++ run := by
    rw [← List.length_append, List.take_left]
  have hpos : (((before.length + run.length + 1 : Nat) : Int) - 1).toNat =
      before.length + run.length := by omega
  have hempty : ((run.map commentText).reverse).isEmpty = false := by simpa using hne
  rw [blockAbove_eq (by omega) (by simp only [List.length_append]; omega), hpos, htake,
    leadingTexts_run hrun habove, Block.above, hempty, List.reverse_reverse, List.length_reverse,
    List.length_map]
  simp only [Bool.false_eq_true, if_false]
  congr 3
  omega

theorem IsRun.blockAbove (h : IsRun lines before run rest) (hlines : ∀ l ∈ lines, '\n' ∉ l) :
    blockAbove lines (before.length + run.length + 1 : Nat) =
      .ok { texts := run.map commentText, firstLine := some (before.length + 1 : Nat) } := by
  obtain ⟨rfl, hne, hcomments, habove, -⟩ := h
  refine blockAbove_run hne (fun l hl => ?_) habove rest
  exact commentText?_of_isComment
    (hlines l (List.mem_append_left _ (List.mem_append_right _ hl))) (hcomments l hl)

end NullAccess.Marker
