import NullAccess.Marker.Read
import NullAccess.Proofs.Pattern.Matches
import NullAccess.Proofs.Text.Padding
import NullAccess.Source.Extract

/-!
# Layout of markers and functions

What is read of a file above and below a line does not depend on how the lines are indented or on
the blanks behind them: with every line trimmed, the marker above a line is the same marker, the
code at a line the same code, and the function declared at a line is the same function up to its
layout.  A line feed would end the text of a comment line, so the lines are taken to hold none.
-/

namespace NullAccess

open Text Pattern

/-! ## Comment lines -/

namespace Marker

variable {a : Pattern} {s : Place} {l : Line} {b r : List Char} {lines : List Line} {n : Int}

/-- What stands behind `//`, if a line begins with it. -/
def behindSlashes? (l : Line) : Option (List Char) :=
  if ['/', '/'] <+: trimLeft l then some (trim ((trimLeft l).drop 2)) else none

theorem head?_ends_inLine (h : '\n' ∉ r) (b : List Char) (gs : List (Nat × List Char × List Char)) :
    ((many inLine).ends ⟨b, r, gs⟩).head? = some ⟨r.reverse ++ b, [], gs⟩ := by
  have hall : ∀ c ∈ r, (c != '\n') = true := by
    intro c hc
    simpa using fun heq : c = '\n' => h (heq ▸ hc)
  have hrun := head?_ends_many (t := []) hall nofun b gs
  rwa [List.append_nil] at hrun

/-- From the place behind `//`, the text of a comment line is the rest of it. -/
theorem head?_ends_commentText (ha : (a.ends s).head? = some ⟨b, r, []⟩) (hr : '\n' ∉ r) :
    ∃ v : Place,
      ((a ++ opt (one isBlank) ++ group 1 (many inLine) ++ stop).ends s).head? = some v ∧
        trim ((v.group? 1).getD []) = trim r := by
  have htext : ∀ {b' r' : List Char}, '\n' ∉ r' →
      ((opt (one isBlank)).ends ⟨b, r, []⟩).head? = some ⟨b', r', []⟩ →
      ((a ++ opt (one isBlank) ++ group 1 (many inLine) ++ stop).ends s).head? =
        some ⟨r'.reverse ++ b', [], [(1, r', [])]⟩ := by
    intro b' r' hr' hopt
    have hrest := head?_ends_group (n := 1) (head?_ends_inLine hr' b' [])
    exact head?_ends_seq (head?_ends_seq (head?_ends_seq ha hopt) hrest) rfl
  have hgroup : ∀ b r : List Char, ((⟨b, [], [(1, r, [])]⟩ : Place).group? 1).getD [] = r := by
    intro b r
    simp [Place.group?]
  cases r with
  | nil => exact ⟨_, htext hr rfl, by rw [hgroup]⟩
  | cons c r =>
    by_cases hc : isBlank c = true
    · have hopt : ((opt (one isBlank)).ends ⟨b, c :: r, []⟩).head? = some ⟨c :: b, r, []⟩ := by
        simp [opt, ends, hc]
      refine ⟨_, htext (fun hmem => hr (List.mem_cons_of_mem c hmem)) hopt, ?_⟩
      rw [hgroup, trim, trim, trimLeft_cons_of_blank r hc]
    · have hopt : ((opt (one isBlank)).ends ⟨b, c :: r, []⟩).head? = some ⟨b, c :: r, []⟩ := by
        simp [opt, ends, hc]
      exact ⟨_, htext hr hopt, by rw [hgroup]⟩

theorem head?_ends_indent (l : Line) :
    ((start ++ blanks).ends (Place.start l)).head? =
      some ⟨(l.takeWhile isBlank).reverse, trimLeft l, []⟩ := by
  have hink : ∀ c ∈ (trimLeft l).head?, isBlank c = false := by
    intro c hc
    have h := List.head?_dropWhile_not isBlank l
    rw [← trimLeft, hc] at h
    exact h
  have hrun := head?_ends_many (isPad_takeWhile l) hink [] []
  rw [trimLeft, List.takeWhile_append_dropWhile, List.append_nil] at hrun
  exact head?_ends_seq rfl hrun

theorem commentText?_of_slashes (hr : '\n' ∉ r) (h : trimLeft l = '/' :: '/' :: r) :
    commentText? l = some (trim r) := by
  have hindent := head?_ends_indent l
  rw [h] at hindent
  obtain ⟨v, hv, hgroup⟩ := head?_ends_commentText (head?_ends_seq hindent (b := lit "//") rfl) hr
  have hmatch : (commentLine.ends (Place.start l)).head? = some v := hv
  rw [commentText?, matchStart?_of_head? hmatch]
  exact congrArg some hgroup

theorem commentText?_of_not_slashes (h : ¬ ['/', '/'] <+: trimLeft l) : commentText? l = none := by
  have hnone : commentLine.matchStart? l = none := by
    rw [matchStart?, matchAt_eq_none_iff, List.eq_nil_iff_forall_not_mem]
    intro v hv
    simp only [commentLine, mem_ends_seq] at hv
    obtain ⟨_, ⟨_, ⟨_, ⟨v₂, ⟨v₁, hstart, hblanks⟩, hlit⟩, -⟩, -⟩, -⟩ := hv
    obtain rfl : v₁ = Place.start l := List.mem_singleton.mp hstart
    obtain ⟨u, t, ht, hu, rfl⟩ := (mem_rounds_one l [] ' ' []).mp hblanks
    obtain ⟨r, hr, -⟩ := mem_ends_text.mp hlit
    refine h ⟨r, ?_⟩
    rw [ht, trimLeft_pad hu, show t = ['/', '/'] ++ r from hr]
    rfl
  rw [commentText?, hnone]
  rfl

theorem commentText?_eq (hl : '\n' ∉ l) : commentText? l = behindSlashes? l := by
  by_cases hslashes : ['/', '/'] <+: trimLeft l
  · obtain ⟨r, hr⟩ := hslashes
    have hlf : '\n' ∉ r := by
      intro hmem
      refine hl ((List.dropWhile_suffix isBlank).subset ?_)
      rw [← trimLeft, ← hr]
      exact List.mem_append_right _ hmem
    rw [commentText?_of_slashes hlf hr.symm, behindSlashes?, if_pos ⟨r, hr⟩, ← hr]
    rfl
  · rw [commentText?_of_not_slashes hslashes, behindSlashes?, if_neg hslashes]

theorem behindSlashes?_trim (l : Line) : behindSlashes? (trim l) = behindSlashes? l := by
  refine eq_of_pads (fun {u w} hu hw t => ?_) l
  obtain ⟨w', hw', ht⟩ := trimLeft_append_pad hw t
  rw [behindSlashes?, behindSlashes?, List.append_assoc, trimLeft_pad hu, ht]
  by_cases hslashes : ['/', '/'] <+: trimLeft t
  · have htext := trim_pads isPad_nil hw' ((trimLeft t).drop 2)
    rw [if_pos hslashes, if_pos (hslashes.trans (List.prefix_append _ _)),
      List.drop_append_of_le_length (show 2 ≤ (trimLeft t).length from hslashes.length_le)]
    exact congrArg some htext
  · rw [if_neg hslashes, if_neg (mt (prefix_append_pad (not_blank_of_all rfl) hw').mp hslashes)]

theorem lf_not_mem_trim (hl : '\n' ∉ l) : '\n' ∉ trim l := by
  obtain ⟨u, w, -, -, h⟩ := exists_pads l
  intro hmem
  rw [h] at hl
  exact hl (List.mem_append_left w (List.mem_append_right u hmem))

theorem commentText?_trim (hl : '\n' ∉ l) : commentText? (trim l) = commentText? l := by
  rw [commentText?_eq hl, commentText?_eq (lf_not_mem_trim hl), behindSlashes?_trim]

/-! ## Markers -/

theorem leadingTexts_trim (h : ∀ l ∈ lines, '\n' ∉ l) :
    leadingTexts (lines.map trim) = leadingTexts lines := by
  induction lines with
  | nil => rfl
  | cons l rest ih =>
    obtain ⟨hl, hrest⟩ := List.forall_mem_cons.mp h
    rw [List.map_cons, leadingTexts, leadingTexts, commentText?_trim hl, ih hrest]

theorem blockAbove_trim (h : ∀ l ∈ lines, '\n' ∉ l) (n : Int) :
    blockAbove (lines.map trim) n = blockAbove lines n := by
  have habove : ∀ l ∈ (lines.take (n - 1).toNat).reverse, '\n' ∉ l :=
    fun l hl => h l (List.mem_of_mem_take (List.mem_reverse.mp hl))
  simp only [blockAbove, List.length_map, ← List.map_take, ← List.map_reverse,
    leadingTexts_trim habove]

theorem consumer_trim (h : ∀ l ∈ lines, '\n' ∉ l) (n : Int) :
    consumer (lines.map trim) n = consumer lines n := by
  rw [consumer, consumer, blockAbove_trim h]

theorem provider_trim (h : ∀ l ∈ lines, '\n' ∉ l) (n : Int) :
    provider (lines.map trim) n = provider lines n := by
  rw [provider, provider, blockAbove_trim h]

end Marker

/-! ## Code and functions -/

namespace Source

variable {lines : List Line} {bare : List Char}

theorem codeAt?_trim (lines : List Line) (n : Int) :
    codeAt? (lines.map trim) n = codeAt? lines n := by
  have htrim : ∀ l : Line, trim (trim l) = trim l := eq_of_pads trim_pads
  simp only [codeAt?, List.getElem?_map, Option.map_map, Function.comp_def, htrim]

theorem isHeader_trim (hbare : ∀ c ∈ bare, isBlank c = false) (l : Line) :
    isHeader bare (trim l) = isHeader bare l := by
  have hfunction : holds "function".toList (trim l) = holds "function".toList l :=
    holds_trim (by decide) (not_blank_of_all rfl) l
  rw [isHeader, isHeader, hfunction]
  by_cases hne : bare = []
  · rw [hne]
    rfl
  · rw [holds_trim hne hbare]

theorem headerFrom_trim (hbare : ∀ c ∈ bare, isBlank c = false) (n k : Nat) :
    headerFrom (lines.map trim) bare n k = headerFrom lines bare n k := by
  induction n generalizing k with
  | zero => rfl
  | succ n ih =>
    have hhere : ((lines.map trim)[k]?).any (isHeader bare) = (lines[k]?).any (isHeader bare) := by
      rw [List.getElem?_map]
      cases lines[k]? with
      | none => rfl
      | some l => exact isHeader_trim hbare l
    cases k with
    | zero => rw [headerFrom, headerFrom, hhere]
    | succ k => rw [headerFrom, headerFrom, hhere, ih]

theorem not_brace_of_isPad {u : List Char} (hu : IsPad u) {c : Char} (hc : c ∈ u) :
    c ≠ '{' ∧ c ≠ '}' := by
  constructor <;> rintro rfl <;> cases hu _ hc

theorem balance_trim (l : Line) : balance (trim l) = balance l := by
  have hpad : ∀ (u : List Char) (d : Int), IsPad u →
      u.foldl (fun d c => if c = '{' then d + 1 else if c = '}' then d - 1 else d) d = d := by
    intro u
    induction u with
    | nil => exact fun d _ => rfl
    | cons c u ih =>
      intro d hu
      obtain ⟨hopen, hclose⟩ := not_brace_of_isPad hu List.mem_cons_self
      rw [List.foldl_cons, if_neg hopen, if_neg hclose]
      exact ih d (List.forall_mem_cons.mp hu).2
  refine eq_of_pads (fun hu hw t => ?_) l
  rw [balance, balance, List.foldl_append, List.foldl_append, hpad _ _ hu, hpad _ _ hw]

theorem contains_trim {c : Char} (hc : isBlank c = false) (l : Line) :
    (trim l).contains c = l.contains c := by
  refine eq_of_pads (f := fun l => l.contains c) (fun {u w} hu hw t => ?_) l
  have hout : ∀ {u : List Char}, IsPad u → c ∉ u := by
    intro u hu hmem
    rw [hu c hmem] at hc
    cases hc
  rw [Bool.eq_iff_iff]
  simp only [List.contains_iff_mem, List.mem_append, hout hu, hout hw, false_or, or_false]

theorem closedLength_trim (lines : List Line) (depth : Int) (opened : Bool) :
    closedLength depth opened (lines.map trim) = closedLength depth opened lines := by
  induction lines generalizing depth opened with
  | nil => rfl
  | cons l rest ih =>
    simp only [List.map_cons, closedLength, balance_trim, contains_trim (c := '{') rfl, ih]

theorem bodyLines_trim (lines : List Line) :
    bodyLines (lines.map trim) = (bodyLines lines).map trim := by
  rw [bodyLines, bodyLines, closedLength_trim, List.map_take]

theorem not_blank_of_mem_bareName {function : String}
    (h : ∀ c ∈ function.toList, isBlank c = false) :
    ∀ c ∈ bareName function, isBlank c = false := by
  intro c hc
  have hpart : ∀ part ∈ splitOn '.' (dropEndWhile (fun c => c == '(' || c == ')') function.toList),
      ∀ c ∈ part, isBlank c = false := by
    intro part hpart c hc
    have hmem := mem_of_mem_splitOn hpart hc
    rw [dropEndWhile, List.mem_reverse] at hmem
    exact h c (List.mem_reverse.mp ((List.dropWhile_suffix _).subset hmem))
  unfold bareName at hc
  cases hlast :
      (splitOn '.' (dropEndWhile (fun c => c == '(' || c == ')') function.toList)).getLast?
    with
  | none =>
    simp only [hlast, Option.getD_none] at hc
    cases hc
  | some part =>
    simp only [hlast, Option.getD_some] at hc
    exact hpart part (List.mem_of_getLast? hlast) c hc

/-- Up to its layout, a function is the same with every line trimmed. -/
theorem squeeze_functionBody?_trim (lines : List Line) {function : String}
    (h : ∀ c ∈ function.toList, isBlank c = false) (n : Int) :
    (functionBody? (lines.map trim) n function).map (fun body => squeeze body.toList) =
      (functionBody? lines n function).map fun body => squeeze body.toList := by
  unfold functionBody?
  rw [List.length_map]
  by_cases hout : n < 1 ∨ lines.length < n
  · rw [if_pos hout, if_pos hout]
  · rw [if_neg hout, if_neg hout]
    simp only [headerFrom_trim (not_blank_of_mem_bareName h), ← List.map_drop, bodyLines_trim,
      Option.map_some, String.toList_ofList, squeeze_joinWith_trim]

end Source

end NullAccess
