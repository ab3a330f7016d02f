import NullAccess.Proofs.Analysis.Rewording
import NullAccess.Proofs.Indent.Patterns
import NullAccess.Proofs.Marker.Layout

/-!
# Lines and their margins

A line is its trimmed self behind a margin, and its code is that of its trimmed self behind the same
margin (`code_eq`).  Trimming the lines of a file keeps its blocks (`keepsBlocks_trim`), and a
column in the trimmed line is in the same block as that column behind the margin (`blockEnd_trim`).
-/

namespace NullAccess

open Text Pattern

variable {u w : List Char}

theorem Text.braceless_of_isPad (hu : IsPad u) : Braceless u := fun c hc =>
  ⟨ne_of_isBlank (hu c hc) (by decide), ne_of_isBlank (hu c hc) (by decide)⟩

theorem Text.head?_append_pad (hw : IsPad w) {c : Char} (hc : isBlank c = false) (t : List Char) :
    (t ++ w).head? = some c ↔ t.head? = some c := by
  cases t with
  | cons d r => rfl
  | nil =>
    refine ⟨fun h => ?_, nofun⟩
    rw [hw c (List.mem_of_mem_head? h)] at hc
    cases hc

section

variable (u w : List Char) {t : List Char} {col : Nat} (h : col ≤ t.length)

include h

theorem Text.take_pads : (u ++ t ++ w).take (col + u.length) = u ++ t.take col := by
  rw [Nat.add_comm, List.append_assoc, List.take_length_add_append,
    List.take_append_of_le_length h]

theorem Text.drop_pads : (u ++ t ++ w).drop (col + u.length) = t.drop col ++ w := by
  rw [Nat.add_comm, List.append_assoc, List.drop_length_add_append,
    List.drop_append_of_le_length h]

end

/-! ## The code of a line -/

namespace Source

theorem isQuote_of_isBlank {c : Char} (hc : isBlank c = true) : isQuote c = false :=
  eq_false_of_rejectsBlanks (by decide +kernel) hc

theorem codeFrom_pad (hu : IsPad u) (t : Line) {quote : Option Char}
    (hquote : ∀ q ∈ quote, isQuote q = true) :
    codeFrom quote (u ++ t) = u ++ codeFrom quote t := by
  induction u with
  | nil => rfl
  | cons c u ih =>
    obtain ⟨hc, hu⟩ := List.forall_mem_cons.mp hu
    have hslash : c ≠ '/' := ne_of_isBlank hc (by decide)
    rw [List.cons_append, List.cons_append, ← ih hu]
    cases quote with
    | some q =>
      have hq : c ≠ q := by
        intro heq
        have hnot := isQuote_of_isBlank hc
        rw [heq, hquote q rfl] at hnot
        cases hnot
      simp only [codeFrom, if_neg hq]
    | none =>
      simp only [codeFrom, isQuote_of_isBlank hc, hslash, false_and, Bool.false_eq_true, if_false]

/-- Blanks behind a line are behind its code, or behind its comment. -/
theorem codeFrom_append_pad (hw : IsPad w) (t : Line) {quote : Option Char}
    (hquote : ∀ q ∈ quote, isQuote q = true) :
    ∃ w', IsPad w' ∧ codeFrom quote (t ++ w) = codeFrom quote t ++ w' := by
  induction t generalizing quote with
  | nil =>
    have hall := codeFrom_pad hw [] hquote
    rw [List.append_nil] at hall
    refine ⟨w, hw, ?_⟩
    rw [List.nil_append, hall, codeFrom, List.append_nil, List.nil_append]
  | cons c r ih =>
    have hgo : ∀ {quote : Option Char}, (∀ q ∈ quote, isQuote q = true) →
        ∃ w', IsPad w' ∧ c :: codeFrom quote (r ++ w) = c :: codeFrom quote r ++ w' := by
      intro quote hquote
      obtain ⟨w', hw', h⟩ := ih hquote
      exact ⟨w', hw', by rw [h, List.cons_append]⟩
    rw [List.cons_append]
    cases quote with
    | some q =>
      refine hgo fun d hd => ?_
      split at hd
      · cases hd
      · exact hquote d hd
    | none =>
      simp only [codeFrom, head?_append_pad hw (show isBlank '/' = false by decide)]
      split
      · rename_i hc
        refine hgo ?_
        rintro d ⟨⟩
        exact hc
      · split
        · exact ⟨[], isPad_nil, rfl⟩
        · refine hgo ?_
          intro q hq
          cases hq

theorem code_pads (hu : IsPad u) (hw : IsPad w) (t : Line) :
    ∃ w', IsPad w' ∧ code (u ++ t ++ w) = u ++ code t ++ w' := by
  have hnone : ∀ q ∈ (none : Option Char), isQuote q = true := nofun
  obtain ⟨w', hw', hcode⟩ := codeFrom_append_pad hw t hnone
  refine ⟨w', hw', ?_⟩
  rw [code, code, List.append_assoc, codeFrom_pad hu _ hnone, hcode, List.append_assoc]

theorem code_eq (l : Line) : ∃ w, IsPad w ∧ code l = margin l ++ code (trim l) ++ w := by
  obtain ⟨w, hw, hl⟩ := exists_margin l
  obtain ⟨w', hw', hcode⟩ := code_pads (isPad_margin l) hw (trim l)
  exact ⟨w', hw', (congrArg code hl).trans hcode⟩

theorem holds_code_trim {part : List Char} (hpart : IsInk part) (l : Line) :
    holds part (code (trim l)) = holds part (code l) := by
  obtain ⟨w, hw, hcode⟩ := code_eq l
  rw [hcode, holds_append_pad hpart.ne_nil hpart.not_blank hw,
    holds_pad hpart.ne_nil hpart.not_blank (isPad_margin l)]

theorem isCommentLine_iff {l : Line} :
    isCommentLine l = true ↔
      ['*'] <+: trimLeft l ∨ ['/', '/'] <+: trimLeft l ∨ ['/', '*'] <+: trimLeft l := by
  unfold isCommentLine
  split <;> rename_i h
  · simp [h]
  · simp [h]
  · simp [h]
  · rename_i hstar hslashes
    simp only [Bool.false_eq_true, false_iff, not_or]
    exact ⟨fun ⟨r, hr⟩ => hstar r hr.symm, fun ⟨r, hr⟩ => hslashes r hr.symm,
      fun ⟨r, hr⟩ => h r hr.symm⟩

theorem isCommentLine_trim (l : Line) : isCommentLine (trim l) = isCommentLine l := by
  refine eq_of_pads (fun {u w} hu hw t => ?_) l
  obtain ⟨w', hw', ht⟩ := trimLeft_append_pad hw t
  rw [Bool.eq_iff_iff, isCommentLine_iff, isCommentLine_iff, List.append_assoc, trimLeft_pad hu, ht,
    prefix_append_pad (not_blank_of_all rfl) hw', prefix_append_pad (not_blank_of_all rfl) hw',
    prefix_append_pad (not_blank_of_all rfl) hw']

end Source

/-! ## Blocks -/

theorem Scope.foldl_step_pads (hu : IsPad u) (hw : IsPad w) (n : Int) (text : String) (s : Scope)
    (t : Line) : (u ++ t ++ w).foldl (step n text) s = t.foldl (step n text) s := by
  rw [List.foldl_append, List.foldl_append, foldl_step_of_braceless (braceless_of_isPad hu),
    foldl_step_of_braceless (braceless_of_isPad hw)]

theorem Guard.advance_append (depth : Nat) (t t' : Line) :
    advance depth (t ++ t') = advance (advance depth t) t' := List.foldl_append

theorem Guard.advance_pads (hu : IsPad u) (hw : IsPad w) (depth : Nat) (t : Line) :
    advance depth (u ++ t ++ w) = advance depth t := by
  rw [advance_append, advance_append, advance_of_braceless (braceless_of_isPad hu),
    advance_of_braceless (braceless_of_isPad hw)]

theorem Guard.pass_append_pad (hw : IsPad w) (inner : Nat) (t : Line) :
    pass inner (t ++ w) = pass inner t := by
  induction t generalizing inner with
  | nil =>
    have h := pass_append_of_braceless (braceless_of_isPad hw) inner []
    rwa [List.append_nil] at h
  | cons c r ih =>
    simp only [List.cons_append, pass, ih]

theorem keepsBlocks_trim : KeepsBlocks trim where
  comment := Source.isCommentLine_trim
  scope s l n := by
    have hsnippet : Scope.snippet (trim l) = Scope.snippet l := by
      rw [Scope.snippet, Scope.snippet, trim_trim]
    rw [Scope.readLine, Scope.readLine, hsnippet]
    exact eq_of_pads (fun hu hw t => Scope.foldl_step_pads hu hw n _ s t) l
  advance d := eq_of_pads fun hu hw t => Guard.advance_pads hu hw d t
  pass inner := eq_of_pads fun hu hw t => by
    rw [Guard.pass_append_pad hw, Guard.pass_append_of_braceless (braceless_of_isPad hu)]
  opens l := by
    refine Iff.of_eq
      (eq_of_pads (f := fun l => (trimLeft l).head? = some '{') (fun hu hw t => ?_) l)
    obtain ⟨w', hw', ht⟩ := trimLeft_append_pad hw t
    rw [List.append_assoc, trimLeft_pad hu, ht, head?_append_pad hw' (by decide)]
  exits := eq_of_pads fun {u w} hu hw t => by
    rw [Guard.occursIn_exitStatement, Guard.occursIn_exitStatement]
    exact occursIn_anchored_pads (by constructor <;> decide +kernel) hu hw t
  tries := eq_of_pads fun {u w} hu hw t => by
    rw [Finding.occursIn_tryOpen, Finding.occursIn_tryOpen]
    exact occursIn_anchored_pads (by constructor <;> decide +kernel) hu hw t

/-- A column of the trimmed line is in the block of that column behind the margin. -/
theorem Guard.blockEnd_trim (depth : Nat) (l : Line) (rest : List Line) (n : Int) {col : Nat}
    (hcol : col ≤ (trim l).length) :
    blockEnd depth l rest n (col + (margin l).length : Nat) =
      blockEnd depth (trim l) (rest.map trim) n col := by
  obtain ⟨w, hw, hl⟩ := exists_margin l
  have hu : IsPad (margin l) := isPad_margin l
  have htake : takeTo l (col + (margin l).length : Nat) = margin l ++ (trim l).take col := by
    rw [takeTo_ofNat]
    exact (congrArg (List.take _) hl).trans (take_pads (margin l) w hcol)
  have hdrop : dropTo l (col + (margin l).length : Nat) = (trim l).drop col ++ w := by
    rw [dropTo_ofNat]
    exact (congrArg (List.drop _) hl).trans (drop_pads (margin l) w hcol)
  rw [keepsBlocks_trim.blockEnd_map, blockEnd, blockEnd, htake, hdrop, takeTo_ofNat, dropTo_ofNat,
    advance_append, advance_of_braceless (braceless_of_isPad hu)]
  simp only [closingLine, pass_append_pad hw]

end NullAccess
