import NullAccess.Proofs.Analysis.Zones
import NullAccess.Proofs.Scope.Partners

/-!
# How far guards reach

Each guard of a line makes a zone of its own, and how far that reaches is a matter of its form
alone.

A condition governs a block, and the zone ends where the extents say that a block of the line is
closed.  That is the first block of the line or, where that one is closed at once, whatever else the
line opens: an `else` on the same line is taken for the guarded block
(`inside_zone_ends_with_first_block_iff`).

A guard that leaves makes the rest of the block around it safe, and nothing behind that block.
Other guards on its line keep to their own rules: one that stands outside that block reaches
further, and so does a condition for which no block is found (`early_exit_keeps_to_its_block`).
-/

namespace NullAccess

open Braces

/-! ## Zones behind a line -/

namespace SafeZone

variable {z : SafeZone} {last e : Int}

/-- Whether a zone makes a place safe that lies behind a line. -/
def ReachesBeyond (z : SafeZone) (last : Int) : Prop :=
  ∃ line col, last < line ∧ z.covers line col = true

theorem reachesBeyond_iff_of_afterLine (hz : z.scope = .afterLine) (last : Int) :
    z.ReachesBeyond last ↔ ∀ e, z.endLine = some e → last < e ∧ z.startLine ≤ e := by
  have hcovers : ∀ line col, z.covers line col = true ↔
      (∀ e, z.endLine = some e → line ≤ e) ∧
        (line = z.startLine ∧ z.startCol ≤ col ∨ z.startLine < line) := by
    intro line col
    unfold covers
    rw [hz]
    cases z.endLine with
    | none =>
      by_cases hline : line = z.startLine <;> simp [hline]
    | some e =>
      by_cases hbehind : e < line
      · have hnot : ¬ line ≤ e := by omega
        simp [hbehind, hnot]
      · have hle : line ≤ e := by omega
        by_cases hline : line = z.startLine <;> simp [hbehind, hle, hline]
  constructor
  · rintro ⟨line, col, hlast, hcover⟩ e he
    obtain ⟨hend, hstart⟩ := (hcovers line col).mp hcover
    have hle := hend e he
    omega
  · intro h
    cases hend : z.endLine with
    | none =>
      refine ⟨max last z.startLine + 1, 0, by omega, (hcovers _ _).mpr ⟨?_, .inr (by omega)⟩⟩
      simp [hend]
    | some e =>
      have he := h e hend
      refine ⟨e, z.startCol, he.1, (hcovers _ _).mpr ⟨?_, by omega⟩⟩
      simp [hend]

theorem reachesBeyond_iff_of_insideBlock (hz : z.scope = .insideBlock) (hend : z.endLine = some e)
    (hstart : z.startLine ≤ last) : z.ReachesBeyond last ↔ last + 1 < e := by
  have hcovers : ∀ line col, z.covers line col = true ↔ z.startLine < line ∧ line < e := by
    intro line col
    simp [covers, hz, hend]
  constructor
  · rintro ⟨line, col, hlast, hcover⟩
    have hbounds := (hcovers line col).mp hcover
    omega
  · intro hlt
    exact ⟨last + 1, 0, by omega, (hcovers _ _).mpr ⟨by omega, hlt⟩⟩

theorem not_reachesBeyond_of_thisLineOnly (hz : z.scope = .thisLineOnly)
    (hstart : z.startLine ≤ last) :
    ¬ z.ReachesBeyond last := by
  rintro ⟨line, col, hlast, hcover⟩
  have hline : line = z.startLine := by simpa [covers, hz] using hcover
  omega

end SafeZone

/-! ## Zones by line -/

namespace Guard

variable {lines pre rest : List Line} {extents : Extents} {name : String}
  {n col : Nat} {z : SafeZone} {raw : Line} {own last : Int}

/-- Line `n` of a file, as the search for guards comes to it. -/
def siteAt (lines : List Line) (extents : Extents) (n : Nat) : Site :=
  ⟨lines, extents, n, (lines.take (n - 1)).foldl advance 0, lines.getD (n - 1) [], lines.drop n⟩

theorem zonesFrom_eq (extents : Extents) (name : List Char) (hlines : lines = pre ++ rest) :
    zonesFrom lines extents name (pre.length + 1) (pre.foldl advance 0) rest =
      (List.range rest.length).flatMap fun i =>
        (siteAt lines extents (pre.length + 1 + i)).zones name := by
  induction rest generalizing pre with
  | nil => rfl
  | cons l rest ih =>
    have hhere : siteAt lines extents (pre.length + 1 + 0) =
        ⟨lines, extents, pre.length + 1, pre.foldl advance 0, l, rest⟩ := by
      subst hlines
      simp [siteAt]
    have hrest : lines = (pre ++ [l]) ++ rest := by rw [hlines, List.append_assoc]; rfl
    have hlater := ih hrest
    rw [List.foldl_append, List.length_append, List.length_singleton] at hlater
    rw [zonesFrom, List.length_cons, List.range_succ_eq_map, List.flatMap_cons,
      List.flatMap_map, hhere]
    congr 1
    refine hlater.trans ?_
    congr 1
    funext i
    rw [show pre.length + 1 + 1 + i = pre.length + 1 + i.succ by omega]

/-- The zones of a file are those of its lines, one line after the other. -/
theorem findZones_eq (lines : List Line) (name : String) (extents : Extents) :
    findZones lines name extents =
      (List.range lines.length).flatMap fun i =>
        (siteAt lines extents (i + 1)).zones name.toList := by
  have hall := zonesFrom_eq extents name.toList (List.nil_append lines).symm
  refine hall.trans ?_
  congr 1
  funext i
  rw [show ([] : List Line).length + 1 + i = i + 1 by rw [List.length_nil]; omega]

theorem mem_findZones_iff :
    z ∈ findZones lines name extents ↔
      ∃ n, (1 ≤ n ∧ n ≤ lines.length) ∧ z ∈ (siteAt lines extents n).zones name.toList := by
  rw [findZones_eq, List.mem_flatMap]
  constructor
  · rintro ⟨i, hi, hz⟩
    rw [List.mem_range] at hi
    exact ⟨i + 1, by omega, hz⟩
  · rintro ⟨n, hn, hz⟩
    refine ⟨n - 1, List.mem_range.mpr (by omega), ?_⟩
    rwa [show n - 1 + 1 = n by omega]

/-! ## Conditions -/

/-- The zone of a condition ends where the last of the blocks that its line opens is closed.  That
is the first of them, unless this one is closed at once and another one is closed below. -/
theorem inside_zone_ends_with_first_block_iff (hz : z ∈ findZones lines name (.ofLines lines))
    (hscope : z.scope = .insideBlock) (hn : z.startLine = n) (hraw : lines[n - 1]? = some raw)
    (hfirst : '{' ∉ raw.take col) (hown : PartnerOn lines n col own) :
    (∃ e, z.endLine = some e ∧ Paired (Letter.ofLines 1 lines) n e ∧
      ∀ c, Paired (Letter.ofLines 1 lines) n c → c ≤ e) ∧
    (z.endLine = some own ↔ n < own ∨ ∀ c, Paired (Letter.ofLines 1 lines) n c → c ≤ n) := by
  obtain ⟨k, hk, hsite⟩ := mem_findZones_iff.mp hz
  obtain ⟨kind, m, -, -, rfl⟩ | ⟨kind, -, rfl⟩ | ⟨m, -, rfl⟩ | rfl := Site.zones_cases hsite
  · cases hscope
  · obtain rfl : k = n := Int.ofNat_inj.mp hn
    obtain ⟨e, he⟩ : ∃ e, (Extents.ofLines lines).find? k = some e := by
      rw [← Option.ne_none_iff_exists', ne_eq, Extents.find?_ofLines_eq_none_iff]
      exact fun hnone => hnone own (hown.paired hk)
    have hend : (siteAt lines (.ofLines lines) k).ownEnd = some e := by
      unfold Site.ownEnd ownBlockEnd siteAt
      dsimp only
      rw [he]
    rw [hend, Option.getD_some]
    refine ⟨⟨e, rfl, Extents.find?_ofLines_eq_some_iff.mp he⟩, ?_⟩
    rw [← Extents.find?_eq_first_iff hk hraw hfirst hown, he]
  · cases hscope
  · cases hscope

/-- A condition whose `else` stands on a line of its own. -/
def elseBelow : List Line :=
  ["if (u) \x7b".toList, "u.a;".toList, "\x7d else \x7b".toList, "u.b;".toList, "\x7d".toList]

theorem inside_zone_ends_with_first_block_iff_sample :
    PartnerOn elseBelow 1 7 3 ∧
      ∃ z ∈ findZones elseBelow "u" (.ofLines elseBelow), z.scope = .insideBlock ∧ z.startLine = 1 ∧
        z.endLine = some 3 := by
  have hown : PartnerOn elseBelow 1 7 3 :=
    ⟨⟨'{', 1, "if (u) \x7b"⟩, Letter.ofLine "u.a;".toList 2, ⟨'}', 3, "\x7d else \x7b"⟩,
      Letter.onward elseBelow 3 1, by decide +kernel, rfl, rfl, rfl, rfl,
      .of_no_braces (by decide) (by decide)⟩
  have hzone : ∃ z ∈ findZones elseBelow "u" (.ofLines elseBelow),
      z.scope = .insideBlock ∧ z.startLine = 1 := by
    decide +kernel
  obtain ⟨z, hz, hscope, hstart⟩ := hzone
  obtain ⟨-, hend⟩ := inside_zone_ends_with_first_block_iff hz hscope hstart rfl (by decide) hown
  exact ⟨hown, z, hz, hscope, hstart, hend.mpr (.inl (by decide))⟩

/-- A condition whose `else` stands on the line that opens and closes its block. -/
def elseBeside : List Line :=
  ["if (u) \x7b g(); \x7d else \x7b".toList, "u.a;".toList, "\x7d".toList]

/-- The first block of the line is closed on it, and the zone takes in the `else`. -/
theorem inside_zone_takes_in_else :
    '{' ∉ (elseBeside.getD 0 []).take 7 ∧ PartnerOn elseBeside 1 7 1 ∧
      ∃ z ∈ findZones elseBeside "u" (.ofLines elseBeside), z.scope = .insideBlock ∧
        z.startLine = 1 ∧
        z.endLine = some 3 ∧ z.covers 2 0 = true := by
  have hown : PartnerOn elseBeside 1 7 1 :=
    ⟨⟨'{', 1, "if (u) \x7b g(); \x7d else \x7b"⟩, (Letter.onward elseBeside 1 8).take 6,
      ⟨'}', 1, "if (u) \x7b g(); \x7d else \x7b"⟩,
      Letter.onward elseBeside 1 15, by decide +kernel, rfl, rfl,
      rfl, rfl, .of_no_braces (by decide) (by decide)⟩
  exact ⟨by decide, hown, by decide +kernel⟩

/-! ## Guards that leave -/

theorem enclosingEnd_eq_around (hn : 1 ≤ n ∧ n ≤ lines.length) (extents : Extents) (col : Nat) :
    enclosingEnd lines n col = .ok ((siteAt lines extents n).around col) := by
  have hlt : n - 1 < lines.length := by omega
  have hbefore : (n : Int) - 1 = ((n - 1 : Nat) : Int) := by omega
  have hline : lines[n - 1]? = some (lines.getD (n - 1) []) := by simp [hlt]
  have hdepth : (startDepths lines)[n - 1]? = some ((lines.take (n - 1)).foldl advance 0) :=
    getElem?_startDepthsFrom 0 hlt
  unfold enclosingEnd
  rw [hbefore, Text.at?_ofNat, Text.at?_ofNat, hline, hdepth]
  dsimp only
  rw [following, if_pos (Int.natCast_nonneg n), Int.toNat_natCast]
  rfl

/-- What is opened on a line within a block that began above it, or on the next line, is closed
within that block. -/
theorem ownBlockEnd_le (hn : 1 ≤ n ∧ n ≤ lines.length)
    (hlast : enclosingEnd lines n col = .ok (some last))
    (habove : ∀ o ∈ (Scope.atPlace lines n col).openings.head?, o.line < n) (hbelow : n + 1 < last)
    {e : Int} (he : ownBlockEnd (.ofLines lines) n rest = some e) : e ≤ last := by
  obtain ⟨-, o, below, hstack, hpaired⟩ := exists_paired_of_enclosingEnd hn hlast
  have hopened : o.line < n := habove o (by simp [hstack])
  have hwithin : ∀ line : Int, n ≤ line → line ≤ n + 1 →
      (Extents.ofLines lines).find? line = some e → e ≤ last := by
    intro line hfrom hto hfind
    have hinner := (Extents.find?_ofLines_eq_some_iff.mp hfind).1
    exact hpaired.closed_le (Letter.ascending_ofLines 1 lines) hinner (by omega) (by omega)
  unfold ownBlockEnd at he
  split at he
  · rename_i c hfind
    cases he
    exact hwithin n (by omega) (by omega) hfind
  · split at he
    · split at he
      · exact hwithin (n + 1) (by omega) (by omega) he
      · cases he
    · cases he

theorem after_of_kind (hn : 1 ≤ n ∧ n ≤ lines.length)
    (hz : z ∈ (siteAt lines extents n).zones name.toList)
    (hkind : z.kind ∈ [GuardKind.earlyReturn, .earlyReturnBlock, .defaultCoalesce]) :
    z.scope = .afterLine ∧
    ∃ m, find? name.toList z.kind (Source.code (lines.getD (n - 1) [])) = some m ∧
      enclosingEnd lines n m.startCol = .ok z.endLine := by
  have haround := enclosingEnd_eq_around hn extents
  obtain ⟨kind, m, -, hm, rfl⟩ | ⟨kind, hinside, rfl⟩ | ⟨m, hm, rfl⟩ | rfl := Site.zones_cases hz
  · exact ⟨rfl, m, hm, haround m.startCol⟩
  · have hapart : ∀ kind ∈ [GuardKind.truthiness, .compound, .explicitAbsence, .loop],
        kind ∉ [GuardKind.earlyReturn, .earlyReturnBlock, .defaultCoalesce] := by
      decide
    exact absurd hkind (hapart kind hinside)
  · exact ⟨rfl, m, hm, haround m.startCol⟩
  · simp at hkind

theorem inside_of_kind (hz : z ∈ (siteAt lines extents n).zones name.toList)
    (hkind : z.kind ∈ [GuardKind.truthiness, .compound, .explicitAbsence, .loop]) :
    z.scope = .insideBlock ∧ z.startLine = n ∧
      z.endLine = some ((ownBlockEnd extents n (lines.drop n)).getD (n + blockWindow)) := by
  obtain ⟨kind, m, hafter, -, rfl⟩ | ⟨kind, -, rfl⟩ | ⟨m, -, rfl⟩ | rfl := Site.zones_cases hz
  · rcases hafter with rfl | rfl <;> simp at hkind
  · exact ⟨rfl, rfl, rfl⟩
  · simp at hkind
  · simp at hkind

theorem this_line_of_kind (hz : z ∈ (siteAt lines extents n).zones name.toList)
    (hkind : z.kind = .optionalAccess) : z.scope = .thisLineOnly ∧ z.startLine = n := by
  obtain ⟨kind, m, hafter, -, rfl⟩ | ⟨kind, hinside, rfl⟩ | ⟨m, -, rfl⟩ | rfl := Site.zones_cases hz
  · rcases hafter with rfl | rfl <;> cases hkind
  · cases hkind
    simp at hinside
  · cases hkind
  · exact ⟨rfl, rfl⟩

/-- Where a guard that leaves stands in a block, its zone ends with that block.  Of the other zones
of its line (`findZones_eq`) one after another guard reaches further iff the block around that guard
does, and one of a condition iff its end lies further; in a block that began above and goes on
below, only where no block of the condition is found. -/
theorem early_exit_keeps_to_its_block {m : Pattern.Match} (hn : 1 ≤ n ∧ n ≤ lines.length)
    (hmatch : find? name.toList .earlyReturn (Source.code (lines.getD (n - 1) [])) = some m)
    (hlast : enclosingEnd lines n m.startCol = .ok (some last)) :
    ∀ z ∈ (siteAt lines (.ofLines lines) n).zones name.toList,
      (z.kind = .earlyReturn ∨ z.kind = .optionalAccess → ¬ z.ReachesBeyond last) ∧
      (z.kind = .earlyReturnBlock ∨ z.kind = .defaultCoalesce →
        ∃ m', find? name.toList z.kind (Source.code (lines.getD (n - 1) [])) = some m' ∧
          enclosingEnd lines n m'.startCol = .ok z.endLine ∧
          (z.ReachesBeyond last ↔ ∀ e, z.endLine = some e → last < e ∧ z.startLine ≤ e)) ∧
      (z.kind ∈ [GuardKind.truthiness, .compound, .explicitAbsence, .loop] →
        (z.ReachesBeyond last ↔
          last + 1 < (ownBlockEnd (.ofLines lines) n (lines.drop n)).getD (n + blockWindow)) ∧
        ((∀ o ∈ (Scope.atPlace lines n m.startCol).openings.head?, o.line < n) → n + 1 < last →
          z.ReachesBeyond last → ownBlockEnd (.ofLines lines) n (lines.drop n) = none)) := by
  intro z hz
  have hfrom := (exists_paired_of_enclosingEnd hn hlast).1
  refine ⟨?_, fun hkind => ?_, fun hkind => ?_⟩
  · rintro (hearly | hoptional) hbeyond
    · -- The pattern has one match on the line, and the zone ends with the block around it.
      obtain ⟨hscope, m', hm', hends⟩ := after_of_kind hn hz (by simp [hearly])
      rw [hearly, hmatch] at hm'
      cases hm'
      have hend : z.endLine = some last := Except.ok.inj (hends.symm.trans hlast)
      have hlt := ((SafeZone.reachesBeyond_iff_of_afterLine hscope last).mp hbeyond last hend).1
      omega
    · obtain ⟨hscope, hstart⟩ := this_line_of_kind hz hoptional
      exact SafeZone.not_reachesBeyond_of_thisLineOnly hscope (hstart ▸ hfrom) hbeyond
  · obtain ⟨hscope, m', hm', hends⟩ := after_of_kind hn hz (by rcases hkind with h | h <;> simp [h])
    exact ⟨m', hm', hends, SafeZone.reachesBeyond_iff_of_afterLine hscope last⟩
  · obtain ⟨hscope, hstart, hend⟩ := inside_of_kind hz hkind
    have hreach := SafeZone.reachesBeyond_iff_of_insideBlock hscope hend (hstart ▸ hfrom)
    refine ⟨hreach, fun habove hbelow hbeyond => ?_⟩
    rw [← Option.not_isSome_iff_eq_none, Option.isSome_iff_exists]
    rintro ⟨e, he⟩
    have hle := ownBlockEnd_le hn hlast habove hbelow he
    have hlt := hreach.mp hbeyond
    rw [he, Option.getD_some] at hlt
    omega

/-- A guard that leaves within a block, and what follows the block. -/
def leavingLines : List Line :=
  ["if (x) \x7b".toList, "if (!u) return;".toList, "\x7d".toList, "u.a;".toList]

theorem early_exit_keeps_to_its_block_sample :
    (find? "u".toList .earlyReturn (Source.code (leavingLines.getD 1 []))).map (·.startCol) =
      some 0 ∧
      enclosingEnd leavingLines 2 0 = .ok (some 3) ∧
      ∃ z ∈ (siteAt leavingLines (.ofLines leavingLines) 2).zones "u".toList,
        z.kind = .earlyReturn ∧ ¬ z.ReachesBeyond 3 := by
  have hfound :
      (find? "u".toList .earlyReturn (Source.code (leavingLines.getD 1 []))).map (·.startCol) =
      some 0 := by
    decide +kernel
  have hlast : enclosingEnd leavingLines 2 0 = .ok (some 3) := by decide +kernel
  have hzone : ∃ z ∈ (siteAt leavingLines (.ofLines leavingLines) 2).zones "u".toList,
      z.kind = .earlyReturn := by
    decide +kernel
  obtain ⟨m, hmatch, hcol⟩ := Option.map_eq_some_iff.mp hfound
  obtain ⟨z, hz, hkind⟩ := hzone
  have hends : enclosingEnd leavingLines (2 : Nat) m.startCol = .ok (some 3) := by
    rw [hcol]
    exact hlast
  have hkeeps := early_exit_keeps_to_its_block (by decide) hmatch hends z hz
  exact ⟨hfound, hlast, z, hz, hkind, hkeeps.1 (.inl hkind)⟩

/-- A default for a name, and beside it a guard that leaves within a block. -/
def defaultLines : List Line :=
  ["u = u || \x7b\x7d; if (x) \x7b if (!u) return; \x7d".toList, "u.a;".toList]

/-- Other zones of the line reach beyond the block: that of the condition, for which no block is
found, and that of a guard outside. -/
theorem early_exit_line_reaches_beyond :
    ((find? "u".toList .earlyReturn (Source.code (leavingLines.getD 1 []))).map (·.startCol) =
      some 0 ∧
      enclosingEnd leavingLines 2 0 = .ok (some 3) ∧
      ∃ z ∈ findZones leavingLines "u" (.ofLines leavingLines),
        z.startLine = 2 ∧ z.kind = .truthiness ∧ z.covers 4 0 = true) ∧
    ((find? "u".toList .earlyReturn (Source.code (defaultLines.getD 0 []))).map (·.startCol) =
      some 22 ∧
      enclosingEnd defaultLines 1 22 = .ok (some 1) ∧
      ∃ z ∈ findZones defaultLines "u" (.ofLines defaultLines),
        z.startLine = 1 ∧ z.kind = .defaultCoalesce ∧ z.covers 2 0 = true) := by
  decide +kernel

end Guard

end NullAccess
