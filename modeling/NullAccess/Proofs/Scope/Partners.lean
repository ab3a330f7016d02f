import NullAccess.Proofs.Scope.Enclosing
import NullAccess.Proofs.Scope.Matching

/-!
# The blocks of a line and of a place

The extents keep one end for each line, the furthest.  A line may open several blocks, and the first
of them has an end of its own (`PartnerOn`).  While that block is open, all that the line opens
besides lies within it and is closed before it; so the two ends differ only where the first block is
closed on its own line already and a block beside it is not (`find?_eq_first_iff`).

The block around a place is a pair as well (`exists_paired_of_enclosingEnd`), and what is opened
within it is closed within it.
-/

namespace NullAccess

namespace Braces

variable {lines : List Line} {n col : Nat} {own closed : Int} {raw : Line}

/-- The brace at a column of line `n` has its partner on line `closed`. -/
def PartnerOn (lines : List Line) (n col : Nat) (closed : Int) : Prop :=
  ∃ x inner y behind, Letter.onward lines n col = x :: (inner ++ y :: behind) ∧
    x.char = '{' ∧ x.line = n ∧ y.char = '}' ∧ y.line = closed ∧ Balanced (inner.map (·.char))

theorem PartnerOn.paired (h : PartnerOn lines n col closed) (hn : 1 ≤ n ∧ n ≤ lines.length) :
    Paired (Letter.ofLines 1 lines) n closed := by
  obtain ⟨x, inner, y, behind, honward, hpair⟩ := h
  refine ⟨Letter.upTo lines n col, x, inner, y, behind, ?_, hpair⟩
  rw [← honward, Letter.upTo_append_onward hn]

/-- A brace has one partner. -/
theorem PartnerOn.unique {closed' : Int} (h : PartnerOn lines n col closed)
    (h' : PartnerOn lines n col closed') : closed = closed' := by
  obtain ⟨x, inner, y, behind, honward, -, -, hy, rfl, hinner⟩ := h
  obtain ⟨x', inner', y', behind', honward', -, -, hy', rfl, hinner'⟩ := h'
  obtain ⟨-, hrest⟩ := List.cons.inj (honward.symm.trans honward')
  -- A partner within the other's block would close what that block did not open.
  have hshorter : ∀ {a b : List Letter} {z : Letter} {r : List Letter}, z.char = '}' →
      Balanced (a.map (·.char)) → Balanced (b.map (·.char)) → b ≠ a ++ z :: r := by
    rintro a b z r hz ha hb rfl
    rw [List.map_append, List.map_cons, hz] at hb
    exact Balanced.not_crossed (a := []) ha hb
  obtain ⟨-, rfl, -⟩ | ⟨u, hu, -⟩ | ⟨u, hu, -⟩ := split_cases hrest
  · rfl
  · exact absurd hu (hshorter hy hinner hinner')
  · exact absurd hu (hshorter hy' hinner' hinner)

theorem Paired.opened_le {xs : List Letter} {opened : Int} (hxs : Letter.Ascending xs)
    (h : Paired xs opened closed) : opened ≤ closed := by
  obtain ⟨before, x, inner, y, behind, rfl, -, rfl, -, rfl, -⟩ := h
  exact (List.pairwise_cons.mp (List.pairwise_append.mp hxs).2.1).1 y (by simp)

/-- Before a column of a line that no brace of the line stands before, none of its braces is
read. -/
theorem ne_open_of_mem_upTo (hn : 1 ≤ n) (hraw : lines[n - 1]? = some raw)
    (hfirst : '{' ∉ raw.take col) {z : Letter} (hz : z ∈ Letter.upTo lines n col)
    (hline : z.line = n) : z.char ≠ '{' := by
  rcases List.mem_append.mp hz with habove | hhere
  · have hbounds := Letter.line_of_mem_ofLines habove
    rw [List.length_take] at hbounds
    omega
  · rw [List.getD_eq_getElem?_getD, hraw, Option.getD_some, Letter.ofLine, ← List.map_take] at hhere
    obtain ⟨c, hc, rfl⟩ := List.mem_map.mp hhere
    intro heq
    exact hfirst (heq ▸ hc)

/-- A line whose first block is closed below opens nothing that is closed behind that block. -/
theorem closed_le_of_first (hn : 1 ≤ n ∧ n ≤ lines.length) (hraw : lines[n - 1]? = some raw)
    (hfirst : '{' ∉ raw.take col) (hown : PartnerOn lines n col own) (hbelow : n < own)
    (h : Paired (Letter.ofLines 1 lines) n closed) : closed ≤ own := by
  obtain ⟨x, inner, y, behind, honward, hx, hxn, hy, rfl, hinner⟩ := hown
  obtain ⟨before', x', inner', y', behind', hsplit, hx', hxn', hy', rfl, hinner'⟩ := h
  have hxs := Letter.ascending_ofLines 1 lines
  by_contra hlt
  -- Between the brace and its partner stands the one that closes the first block.
  have hwhole : before' ++ x' :: (inner' ++ y' :: behind') =
      (Letter.upTo lines n col ++ x :: inner) ++ y :: behind := by
    rw [← hsplit, ← Letter.upTo_append_onward hn col, honward]
    simp
  rw [hsplit] at hxs
  obtain ⟨u, hopened, hu⟩ := split_of_lt hxs hwhole (by omega)
  obtain ⟨w, hw, -⟩ := split_of_lt (hu ▸ hxs.behind) hu.symm (by omega)
  -- The brace is the first one of its line or comes behind it, in the first block.
  have hsuffix : ∃ v, inner = v ++ u := by
    obtain ⟨-, -, rfl⟩ | ⟨v, -, rfl⟩ | ⟨v, hv, -⟩ := split_cases hopened
    · exact ⟨[], rfl⟩
    · exact ⟨v ++ [x'], by simp⟩
    · have hmem : x' ∈ Letter.upTo lines n col := by simp [hv]
      exact absurd hx' (ne_open_of_mem_upTo hn.1 hraw hfirst hmem hxn')
  obtain ⟨v, rfl⟩ := hsuffix
  rw [List.map_append] at hinner
  rw [hw, List.map_append, List.map_cons, hy] at hinner'
  exact hinner.not_crossed hinner'

end Braces

open Braces

namespace Extents

variable {lines : List Line} {n col : Nat} {line own closed : Int} {raw : Line}

/-- The extent of a line reaches to the furthest partner of its braces. -/
theorem find?_ofLines_eq_some_iff :
    (ofLines lines).find? line = some closed ↔
      Paired (Letter.ofLines 1 lines) line closed ∧
        ∀ c, Paired (Letter.ofLines 1 lines) line c → c ≤ closed := by
  have hlater := Scope.pairwise_closings (Letter.ascending_ofLines 1 lines)
  rw [← closings_ofLines] at hlater
  simp only [find?_eq_some_iff hlater, closings_ofLines, Scope.mem_closings_iff]

theorem find?_ofLines_eq_none_iff :
    (ofLines lines).find? line = none ↔ ∀ c, ¬ Paired (Letter.ofLines 1 lines) line c := by
  have hsome : (ofLines lines).find? line ≠ none ↔ ∃ c, Paired (Letter.ofLines 1 lines) line c := by
    simp only [find?_ne_none_iff, closings_ofLines, Scope.mem_closings_iff]
  rw [← not_iff_not, not_forall_not]
  exact hsome

/-- The extent of a line, if there is one, reaches beyond another line iff a block of the line
does. -/
theorem forall_find?_ofLines_iff {last : Int} :
    (∀ e, (ofLines lines).find? line = some e → last < e) ↔
      (∀ c, ¬ Paired (Letter.ofLines 1 lines) line c) ∨
        ∃ c, Paired (Letter.ofLines 1 lines) line c ∧ last < c := by
  rw [← find?_ofLines_eq_none_iff]
  cases hfind : (ofLines lines).find? line with
  | none => simp
  | some e =>
    obtain ⟨hpaired, hmost⟩ := find?_ofLines_eq_some_iff.mp hfind
    constructor
    · intro h
      exact .inr ⟨e, hpaired, h e rfl⟩
    · rintro (hnone | ⟨c, hc, hlt⟩) e' he'
      · cases hnone
      · cases he'
        have hle := hmost c hc
        omega

/-- The extent of a line is that of its first block, unless that block is closed at once and another
one that the line opens is closed below. -/
theorem find?_eq_first_iff (hn : 1 ≤ n ∧ n ≤ lines.length) (hraw : lines[n - 1]? = some raw)
    (hfirst : '{' ∉ raw.take col) (hown : PartnerOn lines n col own) :
    (ofLines lines).find? n = some own ↔
      n < own ∨ ∀ c, Paired (Letter.ofLines 1 lines) n c → c ≤ n := by
  have hpaired := hown.paired hn
  have hle := hpaired.opened_le (Letter.ascending_ofLines 1 lines)
  rw [find?_ofLines_eq_some_iff]
  constructor
  · rintro ⟨-, hmost⟩
    by_cases hbelow : n < own
    · exact .inl hbelow
    · refine .inr fun c hc => ?_
      have hc' := hmost c hc
      omega
  · rintro (hbelow | hnone)
    · exact ⟨hpaired, fun c => closed_le_of_first hn hraw hfirst hown hbelow⟩
    · refine ⟨hpaired, fun c hc => ?_⟩
      have hc' := hnone c hc
      omega

end Extents

/-! ## The block around a place -/

namespace Scope

variable {o : Opening} {below : List Opening} {xs ys : List Letter} {line : Int}

/-- The letter that takes an opening off is the partner of its brace. -/
theorem ClosedOn.paired (h : ClosedOn o below (readLetters {} xs) ys line) :
    Paired (xs ++ ys) o.line line := by
  obtain ⟨between, y, rest, rfl, rfl, hstays, hoff⟩ := h
  have hopen := hstays between List.prefix_rfl
  have hlength := hopen.length_le
  rw [List.length_cons] at hlength
  rw [readLetters_concat] at hoff
  generalize hs : (readLetters {} xs).readLetters between = s at hopen hlength hoff
  have hsplit :
      readLetters {} (xs ++ (between ++ y :: rest)) = (s.readLetter y).readLetters rest := by
    rw [readLetters_append, readLetters_append, hs]
    rfl
  rw [← mem_closings_iff, hsplit]
  refine mem_closings_readLetters ?_ rest
  obtain ⟨-, hread⟩ | ⟨top, under, -, hstack, hread⟩ | ⟨-, hstack, -⟩ | ⟨-, -, hread⟩ :=
    readLetter_cases s y
  · rw [hread] at hoff
    rw [← hoff, List.length_cons] at hlength
    omega
  · have hunder : under = below := by rw [hread] at hoff; exact hoff
    subst hunder
    rw [hstack] at hopen
    obtain rfl : o = top := by simpa using hopen.eq_of_length rfl
    rw [hread]
    exact List.mem_cons_self
  · rw [hstack, List.length_nil] at hlength
    omega
  · rw [hread] at hoff
    rw [hoff] at hlength
    omega

end Scope

namespace Guard

variable {lines : List Line} {n col : Nat} {last : Int}

theorem le_line_of_mem_onward {x : Letter} (h : x ∈ Letter.onward lines n col) : n ≤ x.line := by
  rcases List.mem_append.mp h with hhere | hbelow
  · exact Int.le_of_eq (Letter.line_of_mem_ofLine (List.mem_of_mem_drop hhere)).symm
  · have hbounds := Letter.line_of_mem_ofLines hbelow
    omega

/-- The block around a place is closed there or behind, by the partner of its brace. -/
theorem exists_paired_of_enclosingEnd (hn : 1 ≤ n ∧ n ≤ lines.length)
    (h : enclosingEnd lines n col = .ok (some last)) :
    n ≤ last ∧ ∃ o below, (Scope.atPlace lines n col).openings = o :: below ∧
      Paired (Letter.ofLines 1 lines) o.line last := by
  rw [enclosingEnd_eq hn, Except.ok.injEq] at h
  split at h
  · cases h
  · rename_i hdepth
    obtain ⟨o, below, hstack⟩ := List.exists_cons_of_ne_nil fun hnil =>
      hdepth (List.length_eq_zero_iff.mpr hnil)
    have hnone : (Scope.atPlace lines n col).openings = [] ++ o :: below := hstack
    have hclosed := (Scope.closingOf_eq_some_iff hnone _).mp h
    have hpaired := hclosed.paired
    rw [Letter.upTo_append_onward hn] at hpaired
    obtain ⟨between, y, rest, honward, rfl, -⟩ := hclosed
    exact ⟨le_line_of_mem_onward (by rw [honward]; simp), o, below, hstack, hpaired⟩

end Guard

end NullAccess
