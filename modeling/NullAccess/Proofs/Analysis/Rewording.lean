import NullAccess.Proofs.Analysis.Prefix
import NullAccess.Proofs.Pattern.SearchPadded

/-!
# Lines that are worded otherwise

The analysis looks at a line for what is declared and dereferenced on it, and at the lines around it
for little else than their braces, a few statements at their beginning and whether they are
comments.  `KeepsBlocks` says of a rewording of lines that it leaves these alone.  Applied to every
line of a file, it leaves the blocks of the file as they were, and with them every look around.
-/

namespace NullAccess

/-! ## Text without braces -/

/-- A text in which no block begins or ends. -/
def Text.Braceless (t : List Char) : Prop := ∀ c ∈ t, c ≠ '{' ∧ c ≠ '}'

section Braceless

variable {u : List Char} (hu : Text.Braceless u)

include hu

theorem Scope.foldl_step_of_braceless (n : Int) (text : String) (s : Scope) :
    u.foldl (step n text) s = s := by
  induction u with
  | nil => rfl
  | cons c u ih =>
    obtain ⟨⟨hopen, hclose⟩, hrest⟩ := List.forall_mem_cons.mp hu
    rw [List.foldl_cons, step, if_neg hopen, if_neg hclose, ih hrest]

theorem Guard.advance_of_braceless (depth : Nat) : advance depth u = depth := by
  induction u with
  | nil => rfl
  | cons c u ih =>
    obtain ⟨⟨hopen, hclose⟩, hrest⟩ := List.forall_mem_cons.mp hu
    rw [advance, List.foldl_cons, if_neg hopen, if_neg hclose]
    exact ih hrest

theorem Guard.pass_append_of_braceless (inner : Nat) (t : Line) :
    pass inner (u ++ t) = pass inner t := by
  induction u with
  | nil => rfl
  | cons c u ih =>
    obtain ⟨⟨hopen, hclose⟩, hrest⟩ := List.forall_mem_cons.mp hu
    simp only [List.cons_append, pass, if_neg hopen, if_neg hclose]
    exact ih hrest

end Braceless

/-! ## Statements at the beginning of a line -/

open Pattern in
theorem Guard.occursIn_exitStatement (l : Line) :
    exitStatement.occursIn l =
      (start ++ (blanks ++ (anyOf ["return", "throw"] ++ edge))).occursIn l :=
  occursIn_congr (fun s => by rw [exitStatement, ends_seq_assoc, ends_seq_assoc]) l

open Pattern in
theorem Finding.occursIn_tryOpen (l : Line) :
    tryOpen.occursIn l =
      (start ++
        (blanks ++ (opt (chr '}' ++ blanks) ++ (lit "try" ++ (blanks ++ chr '{'))))).occursIn
        l :=
  occursIn_congr
    (fun s => by
      rw [tryOpen, ends_seq_assoc, ends_seq_assoc, ends_seq_assoc, ends_seq_assoc]) l

/-! ## Rewordings -/

/-- Whether a rewording of lines keeps what is looked for on the lines around a line. -/
structure KeepsBlocks (g : Line → Line) : Prop where
  comment : ∀ l, Source.isCommentLine (g l) = Source.isCommentLine l
  scope : ∀ (s : Scope) (l : Line) (n : Int), s.readLine (g l) n = s.readLine l n
  advance : ∀ (d : Nat) (l : Line), Guard.advance d (g l) = Guard.advance d l
  pass : ∀ (inner : Nat) (l : Line), Guard.pass inner (g l) = Guard.pass inner l
  opens : ∀ l, (Text.trimLeft (g l)).head? = some '{' ↔ (Text.trimLeft l).head? = some '{'
  exits : ∀ l, Guard.exitStatement.occursIn (g l) = Guard.exitStatement.occursIn l
  tries : ∀ l, Finding.tryOpen.occursIn (g l) = Finding.tryOpen.occursIn l

theorem Text.slice_map {α β : Type} (f : α → β) (xs : List α) (i j : Int) :
    slice (xs.map f) i j = (slice xs i j).map f := by
  simp only [slice, List.length_map, List.map_drop, List.map_take]

namespace KeepsBlocks

variable {g : Line → Line} (hg : KeepsBlocks g)

include hg

theorem closingLine_map (inner : Nat) (n : Int) (ls : List Line) :
    Guard.closingLine inner n (ls.map g) = Guard.closingLine inner n ls := by
  induction ls generalizing inner n with
  | nil => rfl
  | cons l rest ih =>
    rw [List.map_cons, Guard.closingLine, Guard.closingLine, hg.pass]
    cases Guard.pass inner l with
    | none => rfl
    | some k => exact ih k (n + 1)

theorem closingLine_cons_map (l : Line) (inner : Nat) (n : Int) (rest : List Line) :
    Guard.closingLine inner n (l :: rest.map g) = Guard.closingLine inner n (l :: rest) := by
  rw [Guard.closingLine, Guard.closingLine]
  cases Guard.pass inner l with
  | none => rfl
  | some k => exact hg.closingLine_map k (n + 1) rest

theorem blockEnd_map (depth : Nat) (raw : Line) (rest : List Line) (n col : Int) :
    Guard.blockEnd depth raw (rest.map g) n col = Guard.blockEnd depth raw rest n col := by
  rw [Guard.blockEnd, Guard.blockEnd, hg.closingLine_cons_map]

theorem ownBlockEnd_map (extents : Extents) (n : Int) (rest : List Line) :
    Guard.ownBlockEnd extents n (rest.map g) = Guard.ownBlockEnd extents n rest := by
  cases rest with
  | nil => rfl
  | cons next rest => simp only [Guard.ownBlockEnd, List.map_cons, hg.opens]

theorem hasExit_map (lines : List Line) (n : Int) (blockEnd : Option Int) :
    Guard.hasExit (lines.map g) n blockEnd = Guard.hasExit lines n blockEnd := by
  simp only [Guard.hasExit, Text.slice_map, List.length_map, List.any_map,
    Function.comp_def, hg.exits]

theorem insideTryFrom_map (lines : List Line) (extents : Extents) (line : Int) (k n : Nat) :
    Finding.insideTryFrom (lines.map g) extents line k n =
      Finding.insideTryFrom lines extents line k n := by
  induction k generalizing n with
  | zero => simp [Finding.insideTryFrom]
  | succ k ih =>
    cases n with
    | zero => simp [Finding.insideTryFrom]
    | succ n =>
      rw [Finding.insideTryFrom, Finding.insideTryFrom, List.getElem?_map, ih]
      cases lines[n]? with
      | none => rfl
      | some l => simp only [Option.map_some, hg.tries]

theorem isDropped_map (lines : List Line) (extents : Extents) (f : Finding) :
    Finding.isDropped (lines.map g) extents f = Finding.isDropped lines extents f := by
  simp only [Finding.isDropped, Finding.isSafeIdiom, Finding.insideTry, hg.insideTryFrom_map]

end KeepsBlocks

end NullAccess
