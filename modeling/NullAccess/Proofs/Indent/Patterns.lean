import NullAccess.Access
import NullAccess.Binding.Declaration
import NullAccess.Proofs.Pattern.SearchPadded

/-!
# The patterns of the analysis between blanks

The patterns by which code is read are steady: in code that is indented, or has blanks behind it,
they find what they find in the code alone.  For a pattern that is looked for as it stands this is
read off its shape at once; for one that is built around a name, once it is known that the name has
no blanks.

Three patterns are not: those that go to the end of the code.  They are dealt with where they are
used.
-/

namespace NullAccess

open Text Pattern

/-! ## Classes without blanks -/

namespace Text

theorem ne_of_isBlank {c d : Char} (hc : isBlank c = true) (hd : isBlank d = false) : c ≠ d := by
  intro heq
  rw [heq, hd] at hc
  cases hc

theorem rejectsBlanks_beq {c : Char} (h : isBlank c = false) : rejectsBlanks (· == c) = true := by
  rw [rejectsBlanks_iff]
  intro d hd
  simpa using ne_of_isBlank hd h

theorem rejectsBlanks_isNameChar : rejectsBlanks isNameChar = true := by
  rw [rejectsBlanks_iff]
  intro c hc
  rw [isNameChar, isWord_of_isBlank hc, Bool.false_or]
  simpa using ne_of_isBlank hc (by decide)

theorem rejectsBlanks_isNameStart : rejectsBlanks isNameStart = true := by decide +kernel

theorem rejectsBlanks_isPathChar : rejectsBlanks Guard.isPathChar = true := by
  rw [rejectsBlanks_iff]
  intro c hc
  rw [Guard.isPathChar, eq_false_of_rejectsBlanks rejectsBlanks_isNameChar hc, Bool.false_or]
  simpa using ne_of_isBlank hc (by decide)

theorem isInk_toDigits (n : Nat) : IsInk (Nat.toDigits 10 n) where
  ne_nil := Nat.toDigits_ne_nil
  not_blank c hc := by
    have hnone : rejectsBlanks Char.isDigit = true := by decide +kernel
    exact not_blank_of_rejectsBlanks hnone (Nat.isDigit_of_mem_toDigits (by omega) (by omega) hc)

end Text

/-! ## Checks around a name -/

namespace Pattern

variable {a b : Pattern} {w : List Char}

theorem ignoresIndent_append :
    (a ++ b).ignoresIndent = (a.ignoresIndent && b.ignoresIndent) := rfl

theorem loose_append : (a ++ b).loose = (a.loose && b.loose) := rfl

theorem inked_append : (a ++ b).inked = (a.inked || b.inked) := rfl

theorem stays_append : (a ++ b).stays = ((b.inked || a.stays) && b.stays) := rfl

theorem ignoresIndent_orElse :
    (a <|> b).ignoresIndent = (a.ignoresIndent && b.ignoresIndent) := rfl

theorem loose_orElse : (a <|> b).loose = (a.loose && b.loose) := rfl

theorem inked_orElse : (a <|> b).inked = (a.inked && b.inked) := rfl

theorem stays_many : (many a).stays = a.stays := rfl

theorem stays_orElse : (a <|> b).stays = (a.stays && b.stays) := rfl

theorem ignoresIndent_text (w : List Char) : (text w).ignoresIndent = true := by
  induction w with
  | nil => rfl
  | cons c r ih => exact ih

theorem loose_text (w : List Char) : (text w).loose = true := by
  induction w with
  | nil => rfl
  | cons c r ih => exact ih

theorem inked_text (h : IsInk w) : (text w).inked = true := by
  cases w with
  | nil => exact absurd rfl h.ne_nil
  | cons c r =>
    rw [text, inked_append, Bool.or_eq_true]
    exact .inl (rejectsBlanks_beq (h.not_blank c List.mem_cons_self))

theorem stays_text (h : ∀ c ∈ w, isBlank c = false) : (text w).stays = true := by
  induction w with
  | nil => rfl
  | cons c r ih =>
    obtain ⟨hc, hr⟩ := List.forall_mem_cons.mp h
    have hchr : (chr c).stays = true := rejectsBlanks_beq hc
    rw [text, stays_append, ih hr, hchr, Bool.or_true]
    rfl

/-- A part of a pattern that sees no blanks around the text and reads something else than blanks. -/
structure Solid (a : Pattern) : Prop where
  ignores : a.ignoresIndent = true
  loose : a.loose = true
  stays : a.stays = true
  inked : a.inked = true

theorem solid_nameChars : Solid nameChars where
  ignores := rfl
  loose := rfl
  stays := by
    have hone : (one isNameChar).stays = true := rejectsBlanks_isNameChar
    rw [nameChars, some1, stays_append, stays_many, hone, Bool.or_true]
    rfl
  inked := by
    have hone : (one isNameChar).inked = true := rejectsBlanks_isNameChar
    rw [nameChars, some1, inked_append, hone]
    rfl

end Pattern

/-! ## Declarations -/

namespace Declaration

theorem steady_forEachLoop : Steady forEachLoop := by constructor <;> rfl

theorem steady_function : Steady function := by constructor <;> rfl

theorem steady_arrow : Steady arrow := by constructor <;> rfl

theorem steady_arrowSingle : Steady arrowSingle := by constructor <;> rfl

theorem steady_route : Steady route := by constructor <;> rfl

theorem steady_listener : Steady listener := by constructor <;> rfl

theorem steady_lengthCheck {path : List Char} (hpath : IsInk path) {sign : String}
    (hsign : IsInk sign.toList) (bound : Nat) : Steady (lengthCheck path sign bound) := by
  refine .of_checks rfl ?_
  simp only [lengthCheck, lit, ignoresIndent_append, ignoresIndent_text, loose_append, loose_text,
    stays_append, inked_text hpath, stays_text hpath.not_blank, inked_text hsign,
    stays_text hsign.not_blank, inked_text (isInk_toDigits bound),
    stays_text (isInk_toDigits bound).not_blank]
  rfl

end Declaration

/-! ## Guards -/

section Named

variable {name : List Char} (hname : IsInk name)

include hname

namespace Guard

theorem startsInked_reference {e : Expected} {a : Pattern}
    (h : a.heads none = (reference name).heads e) : a.startsInked = true := by
  obtain ⟨c, r, rfl⟩ := List.exists_cons_of_ne_nil hname.ne_nil
  have hheads : a.heads none = some (· == c) := h
  rw [startsInked, hheads]
  exact rejectsBlanks_beq (hname.not_blank c List.mem_cons_self)

theorem solid_reference : Solid (reference name) where
  ignores := by
    rw [reference, ignoresIndent_append, ignoresIndent_text, Bool.and_true]
    exact rejectsBlanks_isPathChar
  loose := by
    rw [reference, loose_append, loose_text]
    rfl
  stays := by
    rw [reference, stays_append, inked_text hname, stays_text hname.not_blank]
    rfl
  inked := by
    rw [reference, inked_append, inked_text hname, Bool.or_true]

theorem solid_operand : Solid (operand name) where
  ignores := by
    rw [operand, ignoresIndent_append, (solid_reference hname).ignores]
    rfl
  loose := by
    rw [operand, loose_append, (solid_reference hname).loose, Bool.true_and]
    change rejectsBlanks (fun c => isPathChar c || c == '[') = true
    rw [rejectsBlanks_iff]
    intro c hc
    rw [eq_false_of_rejectsBlanks rejectsBlanks_isPathChar hc, Bool.false_or]
    simpa using ne_of_isBlank hc (by decide)
  stays := by
    rw [operand, stays_append, (solid_reference hname).stays, Bool.or_true]
    rfl
  inked := by
    rw [operand, inked_append, (solid_reference hname).inked, Bool.true_or]

/-- The guards of which it is asked that they occur, or where they begin and end within the code. -/
theorem steady_of_mem_shapes {kind : GuardKind} (hearly : kind ≠ .earlyReturn)
    (hblock : kind ≠ .earlyReturnBlock) : ∀ a ∈ shapes name kind, Steady a := by
  have hreference := solid_reference hname
  have hoperand := solid_operand hname
  cases kind with
  | earlyReturn => exact absurd rfl hearly
  | earlyReturnBlock => exact absurd rfl hblock
  | truthiness =>
    simp only [shapes, List.forall_mem_singleton]
    refine .of_checks rfl ?_
    simp only [ignoresIndent_append, loose_append, stays_append, hoperand.ignores, hoperand.loose,
      hoperand.stays, hoperand.inked]
    rfl
  | compound =>
    simp only [shapes, List.forall_mem_singleton]
    refine .of_checks rfl ?_
    simp only [ignoresIndent_append, loose_append, stays_append, inked_append, ignoresIndent_orElse,
      loose_orElse, stays_orElse, inked_orElse, hoperand.ignores, hoperand.loose, hoperand.stays,
      hoperand.inked]
    rfl
  | explicitAbsence =>
    simp only [shapes, List.forall_mem_cons]
    refine ⟨.of_checks rfl ?_, .of_checks rfl ?_, .of_checks rfl ?_, List.forall_mem_nil _⟩ <;>
      simp only [ignoresIndent_append, loose_append, stays_append, hoperand.ignores, hoperand.loose,
        hoperand.stays, hoperand.inked] <;>
      rfl
  | loop =>
    simp only [shapes, List.forall_mem_cons]
    refine ⟨.of_checks rfl ?_, .of_checks rfl ?_, List.forall_mem_nil _⟩ <;>
      simp only [ignoresIndent_append, loose_append, stays_append, hoperand.ignores, hoperand.loose,
        hoperand.stays, hoperand.inked] <;>
      rfl
  | defaultCoalesce =>
    simp only [shapes, List.forall_mem_cons]
    refine ⟨.of_checks (startsInked_reference hname rfl) ?_,
      .of_checks (startsInked_reference hname rfl) ?_, List.forall_mem_nil _⟩ <;>
      simp only [ignoresIndent_append, loose_append, stays_append,
        hreference.ignores, hreference.loose, hreference.stays, hoperand.ignores, hoperand.loose,
        hoperand.stays, hoperand.inked] <;>
      rfl
  | optionalAccess =>
    simp only [shapes, List.forall_mem_singleton]
    refine .of_checks (startsInked_reference hname rfl) ?_
    simp only [ignoresIndent_append, loose_append, stays_append,
      hreference.ignores, hreference.loose, hreference.stays]
    rfl

end Guard

/-! ## Accesses -/

namespace Access

omit hname in
theorem steady_conditionStart : Steady conditionStart := by constructor <;> rfl

omit hname in
theorem solid_dotName : Solid dotName where
  ignores := rfl
  loose := rfl
  stays := by
    rw [dotName, stays_append, solid_nameChars.inked, solid_nameChars.stays]
    rfl
  inked := by
    rw [dotName, inked_append, solid_nameChars.inked, Bool.or_true]

/-- The patterns that begin with the name. -/
theorem steady_of_name :
    ∀ a ∈ [methodCall name, member name, index name, optional name, fallback name, ternary name],
      Steady a := by
  have h := Guard.solid_reference hname
  have hstarts : ∀ {a : Pattern} {e : Expected}, a.heads none = (Guard.reference name).heads e →
      a.startsInked = true := Guard.startsInked_reference hname
  simp only [List.forall_mem_cons]
  refine ⟨.of_checks (hstarts rfl) ?_, .of_checks (hstarts rfl) ?_, .of_checks (hstarts rfl) ?_,
    .of_checks (hstarts rfl) ?_, .of_checks (hstarts rfl) ?_, .of_checks (hstarts rfl) ?_,
    List.forall_mem_nil _⟩ <;>
    simp only [methodCall, member, index, optional, fallback, ternary, some1, ignoresIndent_append,
      loose_append, stays_append, stays_many, inked_append, h.ignores, h.loose, h.stays, h.inked,
      solid_dotName.ignores, solid_dotName.loose, solid_dotName.stays, solid_dotName.inked] <;>
    rfl

theorem steady_conjunction : Steady (conjunction name) := by
  have h := Guard.solid_reference hname
  have hoperand := Guard.solid_operand hname
  refine .of_checks ?_ ?_
  · obtain ⟨c, r, rfl⟩ := List.exists_cons_of_ne_nil hname.ne_nil
    have hc : isBlank c = false := hname.not_blank c List.mem_cons_self
    change rejectsBlanks (fun d => d == c || (d == '!' || d == c)) = true
    rw [rejectsBlanks_iff]
    intro d hd
    simp [ne_of_isBlank hd hc, ne_of_isBlank hd (show isBlank '!' = false by decide)]
  · simp only [conjunction, ignoresIndent_append, loose_append, stays_append, ignoresIndent_orElse,
      loose_orElse, stays_orElse, h.ignores, h.loose, h.stays, hoperand.ignores, hoperand.loose,
      hoperand.stays, hoperand.inked]
    rfl

theorem steady_ifGuard : Steady (ifGuard name) := by
  have hoperand := Guard.solid_operand hname
  refine .of_checks rfl ?_
  simp only [ifGuard, ignoresIndent_append, loose_append, stays_append, hoperand.ignores,
    hoperand.loose, hoperand.stays, hoperand.inked]
  rfl

end Access

end Named

end NullAccess
