import NullAccess.Proofs.Analysis.Findings
import NullAccess.Proofs.Pattern.Reads
import NullAccess.Proofs.Scope.Partners

/-!
# Findings in `try` blocks

A finding is dropped when a line not far above begins a `try` block that reaches beyond it.  The
brace of that block is the first one of its line (`split_of_find?_tryOpen`), but how far the block
reaches is looked up by line, and a line that closes its `try` block may open another one: what
stands in that `catch` is dropped as well (`dropped_iff_try_line_reaches`).
-/

namespace NullAccess.Finding

open Braces Pattern

variable {lines : List Line} {extents : Extents} {raw : Line} {line : Int}
  {k n col : Nat} {f : Finding} {fs : List Finding}

/-! ## The brace of a `try` -/

/-- Line `n` begins a `try` block, whose brace stands at a column. -/
def OpensTry (lines : List Line) (n col : Nat) : Prop :=
  1 ≤ n ∧ ∃ raw, lines[n - 1]? = some raw ∧ (tryOpen.find? raw).map (·.stopCol) = some (col + 1)

/-- What the beginning of a `try` block reads ends with the first brace of the line. -/
theorem split_of_find?_tryOpen {m : Match} (h : tryOpen.find? raw = some m) :
    ∃ t r, raw = t ++ '{' :: r ∧ '{' ∉ t ∧ m.stopCol = t.length + 1 := by
  have hmatch := isMatch_of_find? h
  obtain ⟨v, hv, hlast⟩ := mem_ends_seq.mp hmatch.mem
  obtain ⟨r, hafter, hlast⟩ := mem_ends_chr.mp hlast
  obtain ⟨t, hread, hnone⟩ := exists_read_of_avoids (c := '{') (by decide +kernel) hv
  -- The pattern begins with the beginning of the text.
  have hbefore : m.first.before = [] := by
    obtain ⟨_, h₄, -⟩ := mem_ends_seq.mp hv
    obtain ⟨_, h₃, -⟩ := mem_ends_seq.mp h₄
    obtain ⟨_, h₂, -⟩ := mem_ends_seq.mp h₃
    obtain ⟨_, h₁, -⟩ := mem_ends_seq.mp h₂
    by_contra hne
    simp [ends, hne] at h₁
  have hraw : raw = t ++ '{' :: r := by
    rw [← hmatch.whole, Place.whole, hbefore, hread, hafter]
    rfl
  have hlength := hmatch.stopCol_add_after
  rw [hlast, hraw, List.length_append, List.length_cons] at hlength
  dsimp only at hlength
  refine ⟨t, r, hraw, hnone, ?_⟩
  omega

theorem OpensTry.first (h : OpensTry lines n col) :
    ∃ raw, lines[n - 1]? = some raw ∧ '{' ∉ raw.take col := by
  obtain ⟨-, raw, hraw, hcol⟩ := h
  obtain ⟨m, hfind, hcol⟩ := Option.map_eq_some_iff.mp hcol
  obtain ⟨t, r, rfl, hnone, hstop⟩ := split_of_find?_tryOpen hfind
  obtain rfl : col = t.length := by omega
  exact ⟨_, hraw, by rwa [List.take_left]⟩

theorem OpensTry.length (h : OpensTry lines n col) : 1 ≤ n ∧ n ≤ lines.length := by
  obtain ⟨hn, raw, hraw, -⟩ := h
  have hlt := (List.getElem?_eq_some_iff.mp hraw).1
  omega

theorem exists_opensTry_iff (hraw : lines[n]? = some raw) :
    (∃ col, OpensTry lines (n + 1) col) ↔ tryOpen.occursIn raw = true := by
  rw [occursIn, Option.isSome_iff_exists]
  constructor
  · rintro ⟨col, -, raw', hraw', hcol⟩
    obtain rfl : raw = raw' := Option.some.inj (hraw.symm.trans hraw')
    obtain ⟨m, hfind, -⟩ := Option.map_eq_some_iff.mp hcol
    exact ⟨m, hfind⟩
  · rintro ⟨m, hfind⟩
    obtain ⟨t, -, -, -, hstop⟩ := split_of_find?_tryOpen hfind
    exact ⟨t.length, by omega, raw, hraw, by rw [hfind, Option.map_some, hstop]⟩

/-! ## The search -/

/-- The search comes to a `try` iff one of the lines that it goes through begins one that is not
known to be closed by the line of the finding. -/
theorem insideTryFrom_eq_true_iff (hn : n ≤ lines.length) :
    insideTryFrom lines extents line k n = .ok true ↔
      ∃ m col, OpensTry lines m col ∧ n < m + k ∧ m ≤ n ∧
        ∀ e, extents.find? m = some e → line < e := by
  induction k generalizing n with
  | zero =>
    refine iff_of_false (by simp [insideTryFrom]) ?_
    rintro ⟨m, col, -, hlt, hle, -⟩
    omega
  | succ k ih =>
    cases n with
    | zero =>
      refine iff_of_false (by simp [insideTryFrom]) ?_
      rintro ⟨m, col, hopens, -, hle, -⟩
      have hm := hopens.1
      omega
    | succ n =>
      have hraw : lines[n]? = some lines[n] := List.getElem?_eq_getElem (by omega)
      have hhere :
          (tryOpen.occursIn lines[n] && (extents.find? (n + 1 : Nat)).all (line < ·)) = true ↔
          (∃ col, OpensTry lines (n + 1) col) ∧
            ∀ e, extents.find? (n + 1 : Nat) = some e → line < e := by
        rw [exists_opensTry_iff hraw, Bool.and_eq_true]
        cases extents.find? (n + 1 : Nat) <;> simp
      rw [insideTryFrom, hraw]
      dsimp only
      split
      · rename_i hfound
        obtain ⟨⟨col, hopens⟩, hreaches⟩ := hhere.mp hfound
        exact iff_of_true rfl ⟨n + 1, col, hopens, by omega, Nat.le_refl _, hreaches⟩
      · rename_i hnot
        rw [hhere] at hnot
        rw [ih (by omega)]
        constructor
        · rintro ⟨m, col, hopens, hlt, hle, hreaches⟩
          exact ⟨m, col, hopens, by omega, by omega, hreaches⟩
        · rintro ⟨m, col, hopens, hlt, hle, hreaches⟩
          have hne : m ≠ n + 1 := by
            rintro rfl
            exact hnot ⟨⟨col, hopens⟩, hreaches⟩
          exact ⟨m, col, hopens, by omega, by omega, hreaches⟩

theorem isDropped_iff (hline : 1 ≤ f.line ∧ f.line ≤ lines.length)
    (hname : f.bindingName ∉ reservedGlobals) (hmark : f.bindingName.toList.head? ≠ some '_') :
    isDropped lines extents f = true ↔
      ∃ m col, OpensTry lines m col ∧ (f.line - tryWindow ≤ m ∧ m < f.line) ∧
        ∀ e, extents.find? m = some e → f.line < e := by
  have hidiom : isSafeIdiom lines extents f =
      insideTryFrom lines extents f.line tryWindow (f.line - 1).toNat := by
    unfold isSafeIdiom insideTry
    rw [if_neg (by simp [hname, hmark])]
  have hfound : insideTryFrom lines extents f.line tryWindow (f.line - 1).toNat = .ok true ↔ _ :=
    insideTryFrom_eq_true_iff (by omega)
  obtain ⟨inside, hinside⟩ :
      ∃ inside, insideTryFrom lines extents f.line tryWindow (f.line - 1).toNat =
      .ok inside :=
    insideTryFrom_ok tryWindow (by omega)
  rw [hinside, Except.ok.injEq] at hfound
  rw [isDropped, hidiom, hinside]
  refine hfound.trans ⟨?_, ?_⟩
  · rintro ⟨m, col, hopens, hlt, hle, hreaches⟩
    exact ⟨m, col, hopens, by omega, hreaches⟩
  · rintro ⟨m, col, hopens, hwindow, hreaches⟩
    have hm := hopens.1
    exact ⟨m, col, hopens, by omega, by omega, hreaches⟩

/-! ## What is dropped -/

/-- How a line that begins a `try` block, with the brace at a column, reaches beyond another
line. -/
inductive TryReaches (lines : List Line) (n col : Nat) (line : Int) : Prop where
  /-- The block is closed behind the other line. -/
  | block {c : Int} (hown : PartnerOn lines n col c) (hbeyond : line < c)
  /-- The block is never closed, and no block of the line is closed, or one is behind the other
  line. -/
  | unclosed (hown : ∀ c, ¬ PartnerOn lines n col c)
      (hbeside : (∀ c, ¬ Paired (Letter.ofLines 1 lines) n c) ∨
        ∃ c, Paired (Letter.ofLines 1 lines) n c ∧ line < c)
  /-- The block is closed at once, and another block of the line is closed behind the other line. -/
  | beside {c : Int} (hown : PartnerOn lines n col n) (hother : Paired (Letter.ofLines 1 lines) n c)
      (hbeyond : line < c)

theorem OpensTry.reaches_iff (h : OpensTry lines n col) :
    (∀ e, (Extents.ofLines lines).find? n = some e → line < e) ↔ TryReaches lines n col line := by
  obtain ⟨raw, hraw, hfirst⟩ := h.first
  have hn := h.length
  rw [Extents.forall_find?_ofLines_iff]
  constructor
  · intro hreaches
    by_cases hown : ∃ own, PartnerOn lines n col own
    · obtain ⟨own, hown⟩ := hown
      have hpaired := hown.paired hn
      have hle := hpaired.opened_le (Letter.ascending_ofLines 1 lines)
      obtain ⟨c, hc, hbeyond⟩ := hreaches.resolve_left fun hnone => hnone own hpaired
      by_cases hbelow : n < own
      · have hwithin := closed_le_of_first hn hraw hfirst hown hbelow hc
        exact .block hown (by omega)
      · obtain rfl : own = n := by omega
        exact .beside hown hc hbeyond
    · exact .unclosed (not_exists.mp hown) hreaches
  · rintro (⟨hown, hbeyond⟩ | ⟨-, hreaches⟩ | ⟨-, hother, hbeyond⟩)
    · exact .inr ⟨_, hown.paired hn, hbeyond⟩
    · exact hreaches
    · exact .inr ⟨_, hother, hbeyond⟩

/-- A finding is dropped for a line above it that begins a `try` block and reaches beyond the
finding.  This need not be by that block: one that the line opens besides will do. -/
theorem dropped_iff_try_line_reaches (h : ∀ f ∈ fs, 1 ≤ f.line ∧ f.line ≤ lines.length) :
    ∃ kept, dropSafeIdioms lines (.ofLines lines) fs = .ok kept ∧
      ∀ f ∈ fs, f.bindingName ∉ reservedGlobals → f.bindingName.toList.head? ≠ some '_' →
        (f ∉ kept ↔ ∃ m col, OpensTry lines m col ∧ (f.line - tryWindow ≤ m ∧ m < f.line) ∧
          TryReaches lines m col f.line) := by
  refine ⟨_, dropSafeIdioms_eq fun f hf => (h f hf).2, fun f hf hname hmark => ?_⟩
  have hkept : f ∉ fs.filter (!isDropped lines (.ofLines lines) ·) ↔
      isDropped lines (.ofLines lines) f = true := by
    simp [List.mem_filter, hf]
  rw [hkept, isDropped_iff (h f hf) hname hmark]
  refine exists_congr fun m => exists_congr fun col => and_congr_right fun hopens => ?_
  rw [hopens.reaches_iff]

/-- A `try` block, and a `catch` block that begins on the line that closes it. -/
def tryBelow : List Line :=
  ["try \x7b".toList, "user.name;".toList, "\x7d catch (e) \x7b".toList,
    "user.id;".toList, "\x7d".toList]

/-- A finding of the name `user` on a line. -/
def userAt (line : Int) : Finding :=
  { file := "a.js", line, bindingName := "user", accessKind := .memberAccess, severity := .high }

theorem dropped_iff_try_line_reaches_sample :
    OpensTry tryBelow 1 4 ∧ PartnerOn tryBelow 1 4 3 ∧
      ∃ kept, dropSafeIdioms tryBelow (.ofLines tryBelow) [userAt 2, userAt 4] = .ok kept ∧
        userAt 2 ∉ kept := by
  have hopens : OpensTry tryBelow 1 4 := ⟨by decide, _, rfl, by decide +kernel⟩
  have hown : PartnerOn tryBelow 1 4 3 :=
    ⟨⟨'{', 1, "try \x7b"⟩, Letter.ofLine "user.name;".toList 2, ⟨'}', 3, "\x7d catch (e) \x7b"⟩,
      Letter.onward tryBelow 3 1, by decide +kernel, rfl, rfl, rfl, rfl,
      .of_no_braces (by decide) (by decide)⟩
  have hlines : ∀ f ∈ [userAt 2, userAt 4], 1 ≤ f.line ∧ f.line ≤ tryBelow.length := by decide
  obtain ⟨kept, hkept, hdropped⟩ := dropped_iff_try_line_reaches hlines
  refine ⟨hopens, hown, kept, hkept, ?_⟩
  refine (hdropped (userAt 2) (by decide) (by decide) (by decide)).mpr ?_
  exact ⟨1, 4, hopens, by decide, .block hown (by decide)⟩

/-- A `try` block on one line, and a `catch` block that begins on it. -/
def tryBeside : List Line :=
  ["try \x7b a(); \x7d catch (e) \x7b".toList, "user.name;".toList, "\x7d".toList]

/-- What stands in the `catch` block is dropped, and no `try` block above is open there. -/
theorem catch_beside_try_dropped :
    dropSafeIdioms tryBeside (.ofLines tryBeside) [userAt 2] = .ok [] ∧
      ¬ ∃ m col, OpensTry tryBeside m col ∧ m < 2 ∧
        ((∀ c, ¬ PartnerOn tryBeside m col c) ∨ ∃ c, PartnerOn tryBeside m col c ∧ 2 < c) := by
  have hown : PartnerOn tryBeside 1 4 1 :=
    ⟨⟨'{', 1, "try \x7b a(); \x7d catch (e) \x7b"⟩, (Letter.onward tryBeside 1 5).take 6,
      ⟨'}', 1, "try \x7b a(); \x7d catch (e) \x7b"⟩,
      Letter.onward tryBeside 1 12, by decide +kernel, rfl,
      rfl, rfl, rfl, .of_no_braces (by decide) (by decide)⟩
  refine ⟨by decide +kernel, ?_⟩
  rintro ⟨m, col, ⟨hm, raw, hraw, hcol⟩, hlt, hopen⟩
  obtain rfl : m = 1 := by omega
  obtain rfl : "try \x7b a(); \x7d catch (e) \x7b".toList = raw := Option.some.inj hraw
  have hfour :
      (tryOpen.find? "try \x7b a(); \x7d catch (e) \x7b".toList).map (·.stopCol) = some 5 := by
    decide +kernel
  obtain rfl : col = 4 := by
    have hsame := Option.some.inj (hcol.symm.trans hfour)
    omega
  rcases hopen with hnever | ⟨c, hc, hbeyond⟩
  · exact hnever 1 hown
  · obtain rfl := hown.unique hc
    omega

end NullAccess.Finding
