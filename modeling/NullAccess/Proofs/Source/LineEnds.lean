import NullAccess.Files.Tree
import NullAccess.Proofs.Analysis.Findings
import NullAccess.Proofs.Text.Padding

/-!
# Line ends

A list of lines can be written as a text in many ways, for each line has one of three ends and a
last line that is not empty may have none (`Spells`).  Every such text is read as the lines it was
written from, unless a line that ends in a carriage return stands before an empty line that ends in
a line feed: the two ends are then read as one, and the empty line is lost (`sourceLines_eq_iff`).

Texts that use one of the two characters alone, or line feeds and pairs, never come to that.  So
their files have the same lines, with the same numbers, and their analyses the same findings, or
none of them comes to a result, because of one of the lines (`line_ends_do_not_matter`).
-/

namespace NullAccess

/-- The three ways in which a line may end. -/
inductive LineEnd where
  | lf
  | crlf
  | cr
  deriving DecidableEq, Repr

def LineEnd.text : LineEnd → List Char
  | lf => ['\n']
  | crlf => ['\r', '\n']
  | cr => ['\r']

namespace Text

variable {l : Line} {lines : List Line} {e : LineEnd} {ends : List LineEnd} {t : List Char}

/-- A line that holds no line end. -/
def Unbroken (l : Line) : Prop := '\r' ∉ l ∧ '\n' ∉ l

instance (l : Line) : Decidable (Unbroken l) := inferInstanceAs (Decidable (_ ∧ _))

/-- A text in which the lines stand one after the other, each with its end.  A last line that is not
empty may go without. -/
inductive Spells : List Line → List LineEnd → List Char → Prop where
  | nil : Spells [] [] []
  | unended {l : Line} (h : l ≠ []) : Spells [l] [] l
  | ended (l : Line) (e : LineEnd) {lines : List Line} {ends : List LineEnd} {t : List Char}
      (h : Spells lines ends t) : Spells (l :: lines) (e :: ends) (l ++ e.text ++ t)

/-! ## One line -/

/-- An end is read as one line feed, unless it is a carriage return and a line feed follows. -/
theorem unifyEnds_text_append (h : e = .cr → t.head? ≠ some '\n') :
    unifyEnds (e.text ++ t) = '\n' :: unifyEnds t := by
  cases e with
  | lf => rfl
  | crlf => rfl
  | cr =>
    cases t with
    | nil => rfl
    | cons c r =>
      have hc : c ≠ '\n' := fun heq => h rfl (congrArg some heq)
      rw [LineEnd.text, List.singleton_append, unifyEnds]
      exact fun r' heq => hc (List.cons.inj heq).1

theorem dropEmptyLast_cons (l : Line) (h : lines ≠ []) :
    dropEmptyLast (l :: lines) = l :: dropEmptyLast lines := by
  obtain ⟨l', rest, rfl⟩ := List.exists_cons_of_ne_nil h
  rfl

theorem sourceLines_ended (hl : Unbroken l) (h : e = .cr → t.head? ≠ some '\n') :
    sourceLines (l ++ e.text ++ t) = l :: sourceLines t := by
  rw [sourceLines, List.append_assoc, unifyEnds_append hl.1,
    unifyEnds_text_append h, splitOn_append, splitOn_of_not_mem hl.2, List.singleton_append,
    dropEmptyLast_cons l (splitOn_ne_nil _ _), sourceLines]

/-- A carriage return and the end of an empty line behind it are read as one end. -/
theorem sourceLines_joined (hl : Unbroken l) (t : List Char) :
    sourceLines (l ++ LineEnd.cr.text ++ '\n' :: t) = l :: sourceLines t := by
  have hpair : l ++ LineEnd.crlf.text ++ t = l ++ LineEnd.cr.text ++ '\n' :: t := by
    simp [LineEnd.text]
  have h : sourceLines (l ++ LineEnd.crlf.text ++ t) = l :: sourceLines t :=
    sourceLines_ended hl nofun
  rwa [hpair] at h

theorem sourceLines_lf (t : List Char) : sourceLines ('\n' :: t) = [] :: sourceLines t :=
  sourceLines_ended (l := []) (e := .lf) (by decide) nofun

theorem sourceLines_unended (hl : Unbroken l) (hne : l ≠ []) : sourceLines l = [l] := by
  rw [sourceLines, unifyEnds_of_not_mem hl.1, splitOn_of_not_mem hl.2, dropEmptyLast,
    if_neg (by simpa using hne)]

/-! ## All lines -/

theorem Spells.head?_eq_lf_iff (h : Spells lines ends t) (hlines : ∀ l ∈ lines, Unbroken l) :
    t.head? = some '\n' ↔ lines[0]? = some [] ∧ ends[0]? = some .lf := by
  have hfirst : ∀ {l : Line} {c : Char} {r : List Char}, Unbroken l → l = c :: r → c ≠ '\n' := by
    rintro l c r hl rfl rfl
    exact hl.2 List.mem_cons_self
  cases h with
  | nil => simp
  | @unended l hne =>
    obtain ⟨c, r, rfl⟩ := List.exists_cons_of_ne_nil hne
    simpa using hfirst (hlines _ List.mem_cons_self) rfl
  | ended l e h =>
    cases l with
    | nil => cases e <;> simp [LineEnd.text]
    | cons c r => simpa using hfirst (hlines _ List.mem_cons_self) rfl

/-- Lines may get lost, but none appear. -/
theorem Spells.length_sourceLines_le (h : Spells lines ends t) (hlines : ∀ l ∈ lines, Unbroken l) :
    (sourceLines t).length ≤ lines.length := by
  induction h with
  | nil => exact Nat.le_refl 0
  | unended hne =>
    rw [sourceLines_unended (hlines _ List.mem_cons_self) hne]
  | @ended l e lines ends t h ih =>
    obtain ⟨hl, hrest⟩ := List.forall_mem_cons.mp hlines
    by_cases hjoined : e = .cr ∧ t.head? = some '\n'
    · obtain ⟨rfl, hhead⟩ := hjoined
      obtain ⟨r, rfl⟩ := List.head?_eq_some_iff.mp hhead
      have hle := ih hrest
      rw [sourceLines_lf, List.length_cons] at hle
      rw [sourceLines_joined hl, List.length_cons, List.length_cons]
      omega
    · rw [sourceLines_ended hl (not_and.mp hjoined), List.length_cons, List.length_cons]
      exact Nat.succ_le_succ (ih hrest)

/-- A text is read as the lines it was written from iff no line that ends in a carriage return
stands before an empty line that ends in a line feed. -/
theorem sourceLines_eq_iff (h : Spells lines ends t) (hlines : ∀ l ∈ lines, Unbroken l) :
    sourceLines t = lines ↔
      ∀ i : Nat, ends[i]? = some .cr → lines[i + 1]? = some [] → ends[i + 1]? ≠ some .lf := by
  induction h with
  | nil => simp [sourceLines, unifyEnds, splitOn, dropEmptyLast]
  | unended hne => simp [sourceLines_unended (hlines _ List.mem_cons_self) hne]
  | @ended l e lines ends t h ih =>
    obtain ⟨hl, hrest⟩ := List.forall_mem_cons.mp hlines
    have hhead := h.head?_eq_lf_iff hrest
    by_cases hjoined : e = .cr ∧ t.head? = some '\n'
    · -- The empty line is lost, and no other line can make up for it.
      obtain ⟨rfl, hlf⟩ := hjoined
      obtain ⟨hempty, hend⟩ := hhead.mp hlf
      obtain ⟨r, rfl⟩ := List.head?_eq_some_iff.mp hlf
      refine iff_of_false (fun heq => ?_) fun hall => hall 0 rfl hempty hend
      have hle := h.length_sourceLines_le hrest
      rw [sourceLines_lf, List.length_cons] at hle
      rw [sourceLines_joined hl] at heq
      rw [← (List.cons.inj heq).2] at hle
      omega
    · rw [sourceLines_ended hl (not_and.mp hjoined), List.cons_inj_right, ih hrest]
      constructor
      · intro hall i
        cases i with
        | zero => exact fun hcr hempty hend =>
            hjoined ⟨Option.some.inj hcr, hhead.mpr ⟨hempty, hend⟩⟩
        | succ i => exact hall i
      · exact fun hall i => hall (i + 1)

example : Spells ["a".toList, []] [.cr, .lf] "a\r\n".toList ∧
    sourceLines "a\r\n".toList = ["a".toList] :=
  ⟨.ended _ .cr (.ended [] .lf .nil), by decide⟩

/-- However its lines are ended, a text is read as these lines, from a file and by the analysis:
with line feeds and pairs in any mixture, or with carriage returns alone.  The analysis comes to no
result exactly where one of the lines is a line of code that reads an element by a number that is
too long. -/
theorem line_ends_do_not_matter {text : String} (hlines : ∀ l ∈ lines, Unbroken l)
    (h : Spells lines ends text.toList)
    (hends : (∀ e ∈ ends, e = .lf ∨ e = .crlf) ∨ ∀ e ∈ ends, e = .cr) :
    (∀ (t : Tree) (p : Path), t.read p = .ok text.toUTF8 → t.sourceLines p = .ok lines) ∧
      (∀ (file : String) (k : Classifier),
        Analysis.ofSource file text k = Analysis.run file lines k) ∧
      ∀ (file : String) (k : Classifier), k.rules.Compiles → ∀ fault,
        Analysis.ofSource file text k = .error fault ↔ fault = .longNumeral ∧
          ∃ raw ∈ lines, Source.isCommentLine raw = false ∧ k.Overlong (Source.code raw) := by
  have hread : sourceLines text.toList = lines := by
    refine (sourceLines_eq_iff h hlines).mpr fun i hcr _ hlf => ?_
    rcases hends with hends | hends
    · exact absurd (hends _ (List.mem_of_getElem? hcr)) (by decide)
    · exact absurd (hends _ (List.mem_of_getElem? hlf)) (by decide)
  have hsource : ∀ (file : String) (k : Classifier),
      Analysis.ofSource file text k = Analysis.run file lines k := by
    intro file k
    rw [Analysis.ofSource, hread]
  refine ⟨fun t p hbytes => ?_, hsource, fun file k hrules fault => ?_⟩
  · rw [Tree.sourceLines, hbytes, Except.map, decodeLossy_toUTF8, hread]
  · rw [hsource, Analysis.run_eq_error_iff]
    exact Declarations.ofLines_eq_error_iff hrules

/-- An empty line between two ends, and a last line without one. -/
def mixedText : String := "function f(u) \x7b\r\n\nu.a;\r\n\x7d"

def mixedLines : List Line := ["function f(u) \x7b".toList, [], "u.a;".toList, "\x7d".toList]

def mixedProject : Tree := ⟨[(["p"], .dir), (["p", "a.js"], .file mixedText.toUTF8)]⟩

theorem line_ends_do_not_matter_sample :
    (∀ l ∈ mixedLines, Unbroken l) ∧ Spells mixedLines [.crlf, .lf, .crlf] mixedText.toList ∧
      mixedProject.sourceLines ⟨.root, ["p", "a.js"]⟩ = .ok mixedLines ∧
      (Analysis.ofSource "a.js" mixedText { rules := {} }).map (·.map (·.line)) = .ok [3] := by
  have hlines : ∀ l ∈ mixedLines, Unbroken l := by decide
  have hspells : Spells mixedLines [.crlf, .lf, .crlf] mixedText.toList :=
    .ended _ .crlf (.ended _ .lf (.ended _ .crlf (.unended (by decide))))
  obtain ⟨hfile, hsource, -⟩ := line_ends_do_not_matter hlines hspells (.inl (by decide))
  refine ⟨hlines, hspells, hfile _ _ (by decide +kernel), ?_⟩
  rw [hsource]
  decide +kernel

end Text

end NullAccess
