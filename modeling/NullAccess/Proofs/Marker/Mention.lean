import NullAccess.Proofs.Indent.Patterns
import NullAccess.Proofs.Ledger.Identity
import NullAccess.Proofs.Marker.Blocks
import NullAccess.Proofs.Pattern.Preferred

/-!
# Dependencies that are written

A dependency is written with or without parentheses behind the function, and with or without its
file, which may stand between brackets.  In each of these forms its tag keeps the name, the digits
of the line and the file (`Mention.exists_find?`).  A dependency without the name of a function is
not read at all, and a file without a name not either (`Mention.ends_eq_nil_of_unnamed`,
`FilePart.exists_head?_ends_tag`).
-/

namespace NullAccess

open Text Pattern

namespace Text

theorem not_blank_of_isDecimal {c : Char} (h : isDecimal c = true) : isBlank c = false :=
  not_blank_of_rejectsBlanks (show rejectsBlanks isDecimal = true by decide) h

theorem isDecimal_of_mem_toDigits {n : Nat} {c : Char} (hc : c ∈ Nat.toDigits 10 n) :
    isDecimal c = true := by
  rw [isDecimal, digitValue?_of_isDigit (Nat.isDigit_of_mem_toDigits (by omega) (by omega) hc)]
  rfl

/-- The digits of a number are read as the number unless there are too many of them. -/
theorem readNumeral?_toDigits (n : Nat) :
    readNumeral? (Nat.toDigits 10 n) = if isWritable n then some n else none := by
  have hdigits : ∀ c ∈ Nat.toDigits 10 n, c.isDigit = true :=
    fun c hc => Nat.isDigit_of_mem_toDigits (by omega) (by omega) hc
  have hread : readDigits? (Nat.toDigits 10 n) = some n := by
    have hempty : (Nat.toDigits 10 n).isEmpty = false := by simp
    rw [readDigits?, hempty]
    simp only [Bool.false_eq_true, if_false]
    rw [readDigitsFrom_of_isDigit hdigits, Nat.ofDigitChars_toDigits (by omega) (by omega)]
  have hlength : (Nat.toDigits 10 n).length ≤ maxDigits ↔ n < 10 ^ maxDigits :=
    Nat.length_toDigits_le_iff (by omega) (by decide)
  rw [readNumeral?, isWritable, Nat.pow_eq]
  by_cases hn : n < 10 ^ maxDigits
  · rw [if_neg (Nat.not_lt.mpr (hlength.mpr hn)), decide_eq_true hn, if_pos rfl, hread]
  · rw [if_pos (Nat.lt_of_not_le (mt hlength.mp hn)), decide_eq_false hn]
    rfl

end Text

namespace Marker

/-! ## The forms of a dependency -/

/-- How a dependency's file is written, if it is. -/
inductive FilePart where
  | absent
  | bracketed (file : List Char)
  | bare (file : List Char)

namespace FilePart

def name : FilePart → List Char
  | absent => []
  | bracketed file => file
  | bare file => file

def text : FilePart → List Char
  | absent => []
  | bracketed file => " [in ".toList ++ (file ++ [']'])
  | bare file => " in ".toList ++ file

/-- Nothing is read of a file without a name. -/
def file? (f : FilePart) : Option String :=
  if f.name = [] then none else some (String.ofList f.name)

end FilePart

/-- A dependency as it is written. -/
structure Mention where
  function : List Char
  called : Bool
  line : Nat
  file : FilePart
  function_admissible : ∀ c ∈ function, (isNameChar c || c == '.') = true
  file_admissible : ∀ c ∈ file.name, isBlank c = false ∧ c ≠ ']' ∧ c ≠ '@'

namespace Mention

variable (d : Mention)

def call : List Char := if d.called then "()".toList else []

/-- What is written up to the number of the line, and with it. -/
def lead : List Char :=
  "@dependency: ".toList ++
    (d.function ++ (d.call ++ (" at line ".toList ++ Nat.toDigits 10 d.line)))

def text : List Char := d.lead ++ d.file.text

/-- What is read of a dependency.  Without the name of a function there is none. -/
def ref? : Option DependencyRef :=
  if d.function = [] then none
  else some { function := String.ofList d.function, line := d.line, file := d.file.file? }

end Mention

/-! ## The end of the tag -/

namespace FilePart

theorem trimRight_bracketed (file : List Char) :
    trimRight (text (.bracketed file)) = " [in ".toList ++ (file ++ [']']) := by
  have htext : text (.bracketed file) = (" [in ".toList ++ file) ++ [']'] :=
    (List.append_assoc ..).symm
  refine trimRight_of_last fun c hc => ?_
  rw [htext, List.getLast?_concat] at hc
  cases hc
  rfl

theorem trimRight_bare {file : List Char} (hne : file ≠ [])
    (hfile : ∀ c ∈ file, isBlank c = false) :
    trimRight (text (.bare file)) = " in ".toList ++ file := by
  have hlast : (text (.bare file)).getLast? = file.getLast? := List.getLast?_append_of_ne_nil _ hne
  refine trimRight_of_last fun c hc => hfile c ?_
  rw [hlast] at hc
  exact List.mem_of_getLast? hc

/-- The end of the tag of a dependency. -/
def tag : Pattern :=
  gap ++ opt (chr '[') ++ lit "in" ++ gap ++
    group 3 (some1 (one fun c => c != ']' && !isBlank c)) ++ opt (chr ']')

/-- Without a name the tag has no match: behind `in` it wants a gap and a name, and trimming leaves
no blank there, or the closing bracket comes next. -/
theorem ends_tag_of_unnamed {f : FilePart} (h : f.name = []) (b : List Char)
    (gs : List (Nat × List Char × List Char)) : tag.ends ⟨b, trimRight f.text, gs⟩ = [] := by
  cases f with
  | absent =>
    have hnone : gap.ends ⟨b, [], gs⟩ = [] := rfl
    have htext : trimRight (text .absent) = [] := rfl
    rw [htext]
    simp only [tag, ends_seq, hnone, List.flatMap_nil]
  | bracketed file =>
    obtain rfl : file = [] := h
    have hgap : gap.ends ⟨b, ' ' :: '[' :: "in ]".toList, gs⟩ =
        [⟨' ' :: b, '[' :: "in ]".toList, gs⟩] := rfl
    have hopen : (opt (chr '[')).ends ⟨' ' :: b, '[' :: "in ]".toList, gs⟩ =
        [⟨'[' :: ' ' :: b, "in ]".toList, gs⟩, ⟨' ' :: b, '[' :: "in ]".toList, gs⟩] := rfl
    have hin : (lit "in").ends ⟨'[' :: ' ' :: b, "in ]".toList, gs⟩ =
        [⟨'n' :: 'i' :: '[' :: ' ' :: b, " ]".toList, gs⟩] := rfl
    have hnone : (lit "in").ends ⟨' ' :: b, '[' :: "in ]".toList, gs⟩ = [] := rfl
    have hgap' : gap.ends ⟨'n' :: 'i' :: '[' :: ' ' :: b, " ]".toList, gs⟩ =
        [⟨' ' :: 'n' :: 'i' :: '[' :: ' ' :: b, "]".toList, gs⟩] := rfl
    have htext : trimRight (text (.bracketed [])) = ' ' :: '[' :: "in ]".toList :=
      trimRight_bracketed []
    rw [htext]
    simp only [tag, ends_seq, hgap, hopen, hin, hnone, hgap', List.flatMap_cons, List.flatMap_nil,
      List.append_nil]
    rfl
  | bare file =>
    obtain rfl : file = [] := h
    have hgap : gap.ends ⟨b, ' ' :: "in".toList, gs⟩ = [⟨' ' :: b, "in".toList, gs⟩] := rfl
    have hclosed :
        (opt (chr '[')).ends ⟨' ' :: b, "in".toList, gs⟩ = [⟨' ' :: b, "in".toList, gs⟩] := rfl
    have hin : (lit "in").ends ⟨' ' :: b, "in".toList, gs⟩ = [⟨'n' :: 'i' :: ' ' :: b, [], gs⟩] :=
      rfl
    have hnone : gap.ends ⟨'n' :: 'i' :: ' ' :: b, [], gs⟩ = [] := rfl
    have htext : trimRight (text (.bare [])) = ' ' :: "in".toList := by decide
    rw [htext]
    simp only [tag, ends_seq, hgap, hclosed, hin, hnone, List.flatMap_cons, List.flatMap_nil,
      List.append_nil]

/-- What comes behind the gap and the bracket. -/
theorem head?_ends_named {a : Pattern} {s : Place} {b x r : List Char}
    {gs : List (Nat × List Char × List Char)}
    (ha : (a.ends s).head? = some ⟨b, "in ".toList ++ (x ++ r), gs⟩) (hne : x ≠ [])
    (hx : ∀ c ∈ x, isBlank c = false ∧ c ≠ ']') (hr : r = [] ∨ r = [']']) :
    ∃ v : Place, ((a ++ lit "in" ++ gap ++ group 3 (some1 (one fun c => c != ']' && !isBlank c)) ++
      opt (chr ']')).ends s).head? = some v ∧ v.groups = (3, x ++ r, r) :: gs := by
  have hname : ∀ c ∈ x, (c != ']' && !isBlank c) = true := by
    intro c hc
    simp [hx c hc]
  have hink : ∀ c ∈ (x ++ r).head?, isBlank c = false := by
    obtain ⟨c, x, rfl⟩ := List.exists_cons_of_ne_nil hne
    rintro _ ⟨⟩
    exact (hx c List.mem_cons_self).1
  have hin := head?_ends_seq ha (head?_ends_lit "in" b (' ' :: (x ++ r)) gs)
  have hgap := head?_ends_seq hin (head?_ends_gap isPad_blank (List.cons_ne_nil _ _) hink _ gs)
  rcases hr with rfl | rfl
  · have hrun := head?_ends_seq hgap (head?_ends_run (n := 3) (r := []) hne hname nofun _ gs)
    exact ⟨_, head?_ends_seq hrun (head?_ends_opt_of_nil rfl), rfl⟩
  · have hrun := head?_ends_seq hgap
      (head?_ends_run (n := 3) hne hname (by rintro c ⟨⟩; rfl) _ gs)
    exact ⟨_, head?_ends_seq hrun (head?_ends_opt_of_head? (u := ⟨_, [], _⟩) rfl), rfl⟩

/-- The tag keeps the file's name, and nothing if there is none. -/
theorem exists_head?_ends_tag (f : FilePart) (hf : ∀ c ∈ f.name, isBlank c = false ∧ c ≠ ']')
    (b : List Char) (gs : List (Nat × List Char × List Char)) :
    ∃ v : Place, ((opt tag).ends ⟨b, trimRight f.text, gs⟩).head? = some v ∧
      (f.name = [] ∧ v.groups = gs ∨
        f.name ≠ [] ∧ ∃ r, v.groups = (3, f.name ++ r, r) :: gs) := by
  by_cases hne : f.name = []
  · exact ⟨_, head?_ends_opt_of_nil (ends_tag_of_unnamed hne b gs), .inl ⟨hne, rfl⟩⟩
  · cases f with
    | absent => exact absurd rfl hne
    | bracketed file =>
      have hgap : ((gap ++ opt (chr '[')).ends ⟨b, " [in ".toList ++ (file ++ [']']), gs⟩).head? =
          some ⟨'[' :: ' ' :: b, "in ".toList ++ (file ++ [']']), gs⟩ :=
        head?_ends_seq
          (head?_ends_gap (t := [' ']) (r := '[' :: _) isPad_blank (List.cons_ne_nil _ _)
            (by rintro c ⟨⟩; rfl) b gs) (head?_ends_opt_of_head? rfl)
      obtain ⟨v, hv, hgroups⟩ := head?_ends_named hgap hne hf (.inr rfl)
      rw [trimRight_bracketed]
      exact ⟨v, head?_ends_opt_of_head? hv, .inr ⟨hne, _, hgroups⟩⟩
    | bare file =>
      replace hne : file ≠ [] := hne
      have hgap : ((gap ++ opt (chr '[')).ends ⟨b, " in ".toList ++ file, gs⟩).head? =
          some ⟨' ' :: b, "in ".toList ++ file, gs⟩ :=
        head?_ends_seq
          (head?_ends_gap (t := [' ']) (r := 'i' :: _) isPad_blank (List.cons_ne_nil _ _)
            (by rintro c ⟨⟩; rfl) b gs) (head?_ends_opt_of_nil rfl)
      rw [← List.append_nil file] at hgap
      obtain ⟨v, hv, hgroups⟩ := head?_ends_named hgap hne hf (.inl rfl)
      rw [List.append_nil] at hv
      rw [trimRight_bare hne fun c hc => (hf c hc).1]
      exact ⟨v, head?_ends_opt_of_head? hv, .inr ⟨hne, _, hgroups⟩⟩

/-- What stands behind the digits goes on with none. -/
theorem not_isDecimal_of_mem_head?_text (f : FilePart) (hf : ∀ c ∈ f.name, isBlank c = false) :
    ∀ c ∈ (trimRight f.text).head?, isDecimal c = false := by
  cases f with
  | absent => exact nofun
  | bracketed file =>
    rw [trimRight_bracketed]
    rintro c ⟨⟩
    decide
  | bare file =>
    by_cases hne : file = []
    · rw [hne]
      rintro c ⟨⟩
      decide
    · rw [trimRight_bare hne hf]
      rintro c ⟨⟩
      decide

end FilePart

/-! ## The middle of the tag -/

/-- The pattern between a function and its line, and that of the line. -/
def callTag : Pattern := blanks ++ opt (lit "()") ++ gap

def lineTag : Pattern := lit "at" ++ gap ++ lit "line" ++ gap ++ group 2 (some1 (one isDecimal))

theorem ends_dependencyTag (s : Place) :
    dependencyTag.ends s = (lit "@dependency:" ++ blanks ++
      group 1 (some1 (one fun c => isNameChar c || c == '.')) ++ callTag ++ lineTag ++
        opt FilePart.tag).ends s := by
  simp only [dependencyTag, callTag, lineTag, FilePart.tag, ends_seq, List.flatMap_assoc]

theorem exists_head?_ends_callTag (called : Bool) (b r : List Char)
    (gs : List (Nat × List Char × List Char)) :
    ∃ b', (callTag.ends
        ⟨b, (if called then "()".toList else []) ++ (" at line ".toList ++ r), gs⟩).head? =
      some ⟨b', "at line ".toList ++ r, gs⟩ := by
  have hgap : ∀ b, (gap.ends ⟨b, " at line ".toList ++ r, gs⟩).head? =
      some ⟨' ' :: b, "at line ".toList ++ r, gs⟩ := fun b =>
    head?_ends_gap (t := [' ']) (r := 'a' :: _) isPad_blank (List.cons_ne_nil _ _)
      (by rintro c ⟨⟩; rfl) b gs
  cases called with
  | true =>
    have hblanks : (blanks.ends ⟨b, "()".toList ++ (" at line ".toList ++ r), gs⟩).head? =
        some ⟨b, "()".toList ++ (" at line ".toList ++ r), gs⟩ :=
      head?_ends_many (r := []) (t := '(' :: _) nofun (by rintro c ⟨⟩; rfl) b gs
    have hcall := head?_ends_seq hblanks (head?_ends_opt_of_head? (head?_ends_lit "()" b _ gs))
    exact ⟨_, head?_ends_seq hcall (hgap _)⟩
  | false =>
    -- The blank is taken first and then given back, because the gap needs it.
    have hblanks : blanks.ends ⟨b, ' ' :: 'a' :: ("t line ".toList ++ r), gs⟩ =
        [⟨' ' :: b, 'a' :: ("t line ".toList ++ r), gs⟩,
          ⟨b, ' ' :: 'a' :: ("t line ".toList ++ r), gs⟩] := by
      rw [blanks, ends_many_cons, if_pos (show isBlank ' ' = true from rfl), ends_many_cons,
        if_neg (show ¬ isBlank 'a' = true from nofun)]
      rfl
    have hends : callTag.ends ⟨b, ' ' :: 'a' :: ("t line ".toList ++ r), gs⟩ =
        gap.ends ⟨b, ' ' :: 'a' :: ("t line ".toList ++ r), gs⟩ := by
      rw [callTag, ends_seq, ends_seq, hblanks]
      exact List.append_nil _
    exact ⟨_, (congrArg List.head? hends).trans (hgap b)⟩

theorem exists_head?_ends_lineTag {a : Pattern} {s : Place} {b x r : List Char}
    {gs : List (Nat × List Char × List Char)}
    (ha : (a.ends s).head? = some ⟨b, "at line ".toList ++ (x ++ r), gs⟩) (hne : x ≠ [])
    (hx : ∀ c ∈ x, isDecimal c = true) (hr : ∀ c ∈ r.head?, isDecimal c = false) :
    ∃ b', ((a ++ lineTag).ends s).head? = some ⟨b', r, (2, x ++ r, r) :: gs⟩ := by
  have hink : ∀ c ∈ (x ++ r).head?, isBlank c = false := by
    obtain ⟨c, x, rfl⟩ := List.exists_cons_of_ne_nil hne
    rintro _ ⟨⟩
    exact not_blank_of_isDecimal (hx c List.mem_cons_self)
  have hat := head?_ends_lit "at" b (' ' :: ("line".toList ++ ' ' :: (x ++ r))) gs
  have hgap := head?_ends_seq hat
    (head?_ends_gap (t := [' ']) (r := 'l' :: _) isPad_blank (List.cons_ne_nil _ _)
      (by rintro c ⟨⟩; rfl) _ gs)
  have hline := head?_ends_seq hgap (head?_ends_lit "line" _ (' ' :: (x ++ r)) gs)
  have hgap' := head?_ends_seq hline
    (head?_ends_gap isPad_blank (List.cons_ne_nil _ _) hink _ gs)
  have hdigits := head?_ends_seq hgap' (head?_ends_run (n := 2) hne hx hr _ gs)
  exact ⟨_, head?_ends_seq ha hdigits⟩

/-- Between a function and its line there are parentheses, or else a blank and then `at`. -/
theorem after_of_mem_ends_callTag {s u : Place} (hu : u ∈ (callTag ++ lineTag).ends s) :
    (∃ y, trimLeft s.after = '(' :: y) ∨
      (∃ y, trimLeft s.after = 'a' :: y) ∧ ∃ c ∈ s.after.head?, isBlank c = true := by
  obtain ⟨v, hv, hline⟩ := mem_ends_seq.mp hu
  obtain ⟨v₂, hv₂, hgap⟩ := mem_ends_seq.mp hv
  obtain ⟨v₁, hblanks, hcall⟩ := mem_ends_seq.mp hv₂
  obtain ⟨w, r₁, hafter, hw, rfl⟩ := mem_ends_run.mp hblanks
  rw [hafter, trimLeft_pad hw]
  rcases List.mem_append.mp hcall with hparens | hnone
  · obtain ⟨r₂, hr₁, -⟩ := mem_ends_text.mp hparens
    replace hr₁ : r₁ = '(' :: ')' :: r₂ := hr₁
    refine .inl ⟨')' :: r₂, ?_⟩
    rw [hr₁]
    rfl
  · obtain rfl := List.mem_singleton.mp hnone
    obtain ⟨v₃, hfirst, hrest⟩ := mem_ends_seq.mp hgap
    obtain ⟨c, r₂, hr₁, hc, rfl⟩ := mem_ends_one.mp hfirst
    obtain ⟨w', r₃, hr₂, hw', rfl⟩ := mem_ends_run.mp hrest
    have hat : ∃ y, r₃ = 'a' :: y := by
      simp only [lineTag, mem_ends_seq] at hline
      obtain ⟨_, ⟨_, ⟨_, ⟨_, hlit, -⟩, -⟩, -⟩, -⟩ := hline
      obtain ⟨y, hy, -⟩ := mem_ends_text.mp hlit
      exact ⟨_, hy⟩
    obtain ⟨y, rfl⟩ := hat
    replace hr₁ : r₁ = c :: (w' ++ 'a' :: y) := by
      rw [← hr₂]
      exact hr₁
    refine .inr ⟨⟨y, ?_⟩, ?_⟩
    · rw [hr₁, trimLeft_cons_of_blank _ hc, trimLeft_pad hw']
      rfl
    · cases w with
      | nil => exact ⟨c, by rw [hr₁]; rfl, hc⟩
      | cons d w => exact ⟨d, rfl, hw d List.mem_cons_self⟩

/-- A dependency has a name, which is no part of what comes between it and its line. -/
theorem after_of_mem_ends_dependencyTag {s u : Place} (hu : u ∈ dependencyTag.ends s) :
    ∃ w c x r, s.after = "@dependency:".toList ++ (w ++ c :: (x ++ r)) ∧ IsPad w ∧
      (∀ d ∈ c :: x, (isNameChar d || d == '.') = true) ∧
      ((∃ y, trimLeft r = '(' :: y) ∨
        (∃ y, trimLeft r = 'a' :: y) ∧ ∃ c ∈ r.head?, isBlank c = true) := by
  have hends : u ∈ (lit "@dependency:" ++ blanks ++
      group 1 (some1 (one fun c => isNameChar c || c == '.')) ++ (callTag ++ lineTag) ++
        opt FilePart.tag).ends s := by
    rw [ends_dependencyTag] at hu
    simpa only [ends_seq, List.flatMap_assoc] using hu
  obtain ⟨v, hcall, -⟩ := mem_ends_seq.mp hends
  obtain ⟨v₃, hlead, hcall⟩ := mem_ends_seq.mp hcall
  obtain ⟨v₂, hlead, hgroup⟩ := mem_ends_seq.mp hlead
  obtain ⟨v₁, hlit, hblanks⟩ := mem_ends_seq.mp hlead
  obtain ⟨r₁, hafter, rfl⟩ := mem_ends_text.mp hlit
  obtain ⟨w, r₂, hr₁, hw, rfl⟩ := mem_ends_run.mp hblanks
  obtain ⟨v₄, hname, rfl⟩ := List.mem_map.mp hgroup
  obtain ⟨v₅, hfirst, hrest⟩ := mem_ends_seq.mp hname
  obtain ⟨c, r₃, hr₂, hc, rfl⟩ := mem_ends_one.mp hfirst
  obtain ⟨x, r, hr₃, hx, rfl⟩ := mem_ends_run.mp hrest
  refine ⟨w, c, x, r, ?_, hw, List.forall_mem_cons.mpr ⟨hc, hx⟩, after_of_mem_ends_callTag hcall⟩
  simp only at hr₁ hr₂ hr₃
  rw [hafter, hr₁, hr₂, hr₃]

/-! ## The whole tag -/

namespace Mention

variable (d : Mention)

theorem getLast?_lead : d.lead.getLast? = (Nat.toDigits 10 d.line).getLast? := by
  have hne : Nat.toDigits 10 d.line ≠ [] := Nat.toDigits_ne_nil
  unfold lead
  generalize Nat.toDigits 10 d.line = digits at hne ⊢
  rw [← List.append_assoc, ← List.append_assoc, ← List.append_assoc,
    List.getLast?_append_of_ne_nil _ hne]

theorem trim_text : trim d.text = d.lead ++ trimRight d.file.text := by
  have hlead : d.lead = '@' :: ("dependency: ".toList ++ (d.function ++ (d.call ++
      (" at line ".toList ++ Nat.toDigits 10 d.line)))) := rfl
  refine trim_append ?_ ?_ (fun c hc => ?_) _
  · rw [hlead]
    exact List.cons_ne_nil _ _
  · rw [hlead]
    rintro c ⟨⟩
    rfl
  · rw [getLast?_lead] at hc
    have hmem : c ∈ Nat.toDigits 10 d.line := List.mem_of_getLast? (Option.mem_def.mp hc)
    exact not_blank_of_isDecimal (isDecimal_of_mem_toDigits hmem)

theorem trim_text_eq : trim d.text = "@dependency:".toList ++ ([' '] ++ (d.function ++ (d.call ++
    (" at line ".toList ++ (Nat.toDigits 10 d.line ++ trimRight d.file.text))))) := by
  have h := d.trim_text
  unfold lead at h
  generalize Nat.toDigits 10 d.line = digits at h ⊢
  simp only [h, List.append_assoc]
  rfl

theorem not_blank_of_path {c : Char} (h : (isNameChar c || c == '.') = true) : isBlank c = false :=
  not_blank_of_rejectsBlanks rejectsBlanks_isPathChar h

theorem not_path_of_mem_head?_call (r : List Char) :
    ∀ c ∈ (d.call ++ (" at line ".toList ++ r)).head?, (isNameChar c || c == '.') = false := by
  unfold call
  cases d.called with
  | true =>
    rintro c ⟨⟩
    decide
  | false =>
    rintro c ⟨⟩
    decide

/-- The tag of a dependency that is named keeps the name, the digits and the file. -/
theorem exists_find? (hne : d.function ≠ []) :
    ∃ m, dependencyTag.find? (trim d.text) = some m ∧ m.group 1 = d.function ∧
      m.group 2 = Nat.toDigits 10 d.line ∧ (m.group? 3).map String.ofList = d.file.file? := by
  have hdigits : ∀ c ∈ Nat.toDigits 10 d.line, isDecimal c = true :=
    fun c hc => isDecimal_of_mem_toDigits hc
  have hsome : Nat.toDigits 10 d.line ≠ [] := Nat.toDigits_ne_nil
  have hfile := d.file.not_isDecimal_of_mem_head?_text fun c hc => (d.file_admissible c hc).1
  rw [trim_text_eq]
  generalize Nat.toDigits 10 d.line = digits at hdigits hsome ⊢
  have hfunction : ∀ r, ∀ c ∈ (d.function ++ r).head?, isBlank c = false := by
    obtain ⟨c, x, hcons⟩ := List.exists_cons_of_ne_nil hne
    rw [hcons]
    rintro r _ ⟨⟩
    exact not_blank_of_path (d.function_admissible c (hcons ▸ List.mem_cons_self))
  -- The tag is read in three steps: up to the name, the call with its line, and the file.
  have hlead := head?_ends_seq
    (head?_ends_seq (head?_ends_lit "@dependency:" [] _ [])
      (head?_ends_blanks isPad_blank (hfunction _) _ []))
    (head?_ends_run (n := 1) hne d.function_admissible
      (d.not_path_of_mem_head?_call (digits ++ trimRight d.file.text)) _ [])
  obtain ⟨b, hcall⟩ := exists_head?_ends_callTag d.called _ (digits ++ trimRight d.file.text) _
  obtain ⟨b', hline⟩ := exists_head?_ends_lineTag (head?_ends_seq hlead hcall) hsome hdigits hfile
  obtain ⟨v, hv, hgroups⟩ := FilePart.exists_head?_ends_tag d.file
    (fun c hc => ⟨(d.file_admissible c hc).1, (d.file_admissible c hc).2.1⟩) b' _
  have hends := head?_ends_seq hline hv
  rw [← ends_dependencyTag] at hends
  refine ⟨_, find?_of_head? hends, ?_⟩
  rcases hgroups with ⟨hname, hgroups⟩ | ⟨hname, r, hgroups⟩ <;>
    simp [Match.group, Match.group?, Place.group?, hgroups, FilePart.file?, hname]

theorem ends_eq_nil_of_unnamed (hnil : d.function = []) :
    dependencyTag.ends (Place.start (trim d.text)) = [] := by
  rw [trim_text_eq, hnil]
  generalize Nat.toDigits 10 d.line = digits
  rw [List.eq_nil_iff_forall_not_mem]
  intro u hu
  obtain ⟨w, c, x, r, hafter, hw, hname, hrest⟩ := after_of_mem_ends_dependencyTag hu
  have hink : trimLeft (w ++ c :: (x ++ r)) = c :: (x ++ r) := by
    rw [trimLeft_pad hw,
      trimLeft_cons_of_not_blank _ (not_blank_of_path (hname c List.mem_cons_self))]
  rw [← List.append_cancel_left hafter] at hink
  unfold call at hink
  cases hcalled : d.called with
  | true =>
    rw [hcalled] at hink
    have hc : c = '(' := (List.cons.inj hink).1.symm
    have hparen := hname c List.mem_cons_self
    rw [hc] at hparen
    revert hparen
    decide
  | false =>
    rw [hcalled] at hink
    have htext : 'a' :: 't' :: ' ' :: 'l' :: ("ine ".toList ++ (digits ++ trimRight d.file.text)) =
        c :: (x ++ r) := hink
    obtain ⟨rfl, hname₁⟩ := List.cons.inj htext
    -- The name would be the `a` or the `at` before the line.
    cases x with
    | nil =>
      obtain rfl : _ = r := hname₁
      rcases hrest with ⟨y, hy⟩ | ⟨-, b, ⟨⟩, hb⟩
      · cases hy
      · cases hb
    | cons e x =>
      obtain ⟨rfl, hname₂⟩ := List.cons.inj hname₁
      cases x with
      | nil =>
        obtain rfl : _ = r := hname₂
        rcases hrest with ⟨y, hy⟩ | ⟨⟨y, hy⟩, -⟩ <;> cases hy
      | cons e x =>
        obtain ⟨rfl, -⟩ := List.cons.inj hname₂
        have hspace := hname ' ' (by simp)
        revert hspace
        decide

end Mention

end Marker

end NullAccess
