import NullAccess.Proofs.Analysis.Blocks
import NullAccess.Proofs.Pattern.Matches

/-!
# Zones of a complete part of a file

A part is complete when no brace is open behind it.  The search for guards looks ahead: to the end
of a guard's block, to the end of the block around it, for an exit in it, and at the line that
follows.  Each look ahead ends within a complete part, but one: a condition on its last line may
govern a block that opens on the line after.  That block makes no line of the part safe, so what is
safe there is the same whatever follows (`isSafe_findZones_append`).
-/

namespace NullAccess

theorem Text.cut_append {α : Type} (xs ys : List α) {i : Int} (h0 : 0 ≤ i) (h : i ≤ xs.length) :
    cut (xs ++ ys).length i = cut xs.length i := by
  rw [List.length_append]
  unfold cut
  split <;> omega

/-- What lies within the first lines is not cut otherwise when more lines follow. -/
theorem Text.slice_append {α : Type} (xs ys : List α) {i j : Int} (hi : 0 ≤ i ∧ i ≤ xs.length)
    (hj : 0 ≤ j ∧ j ≤ xs.length) : slice (xs ++ ys) i j = slice xs i j := by
  unfold slice
  rw [cut_append xs ys hi.1 hi.2, cut_append xs ys hj.1 hj.2,
    List.take_append_of_le_length (cut_le _ _)]

namespace SafeZone

variable {z : SafeZone} {line : Int}

theorem covers_of_lt (h : line < z.startLine) (col : Int) : z.covers line col = false := by
  unfold covers
  split
  · simp only [beq_eq_false_iff_ne]
    omega
  · split
    · rfl
    · rw [if_neg (by omega), decide_eq_false_iff_not]
      omega
  · rw [Bool.and_eq_false_iff, decide_eq_false_iff_not]
    exact .inl (by omega)

theorem covers_of_inside (hz : z.scope = .insideBlock) (h : line ≤ z.startLine) (col : Int) :
    z.covers line col = false := by
  unfold covers
  rw [hz]
  simp only [Bool.and_eq_false_iff, decide_eq_false_iff_not]
  exact .inl (by omega)

end SafeZone

/-! ## The blocks of a complete part -/

/-- What is known of the blocks of a complete part, and of those of a file that begins with it. -/
structure Complete (part : List Line) (own whole : Extents) : Prop where
  agree : ∀ line : Int, line ≤ part.length → whole.find? line = own.find? line
  closed : ∀ (i : Nat) l, part[i]? = some l → '{' ∈ l → (own.find? (1 + i)).isSome = true
  bounded : ∀ line c, own.find? line = some c → line ≤ c ∧ c ≤ part.length
  ordered : ∀ line c, whole.find? line = some c → line ≤ c
  balanced : part.foldl Guard.advance 0 = 0

theorem complete_of_depth {part : List Line} (h : (Scope.readLines {} 1 part).depth = 0)
    (more : List Line) : Complete part (.ofLines part) (.ofLines (part ++ more)) := by
  have hopen : (Scope.readLines {} 1 part).openings = [] := List.length_eq_zero_iff.mp h
  constructor
  · intro line hline
    have hstart : Scope.Since part.length (.ofLines part) (1 + part.length - 1)
        (Scope.readLines {} 1 part) :=
      ⟨by rw [hopen]; exact List.forall_mem_nil _, [], rfl, List.forall_mem_nil _⟩
    have hsince := hstart.readLines (by omega) more
    rw [Extents.ofLines, Scope.readLines_append]
    exact hsince.find? hline
  · intro i l hl hbrace
    exact (Scope.opened_of_getElem? {} 1 hl hbrace).isSome hopen
  · intro line c hc
    exact ((Scope.since_readLines part).le_of_find? hc).2
  · intro line c hc
    exact ((Scope.since_readLines (part ++ more)).le_of_find? hc).2.1
  · exact (Scope.depth_readLines {} 1 part).symm.trans h

namespace Guard

variable {part more lines pre rest : List Line} {own whole extents : Extents}
  {name code : List Char} {kind : GuardKind} {n line col first : Int} {depth : Nat}
  {l : Line} {z : SafeZone}

/-- A guard in block form opens its block on its own line. -/
theorem brace_of_find? {m : Pattern.Match} (h : find? name .earlyReturnBlock code = some m) :
    '{' ∈ code := by
  obtain ⟨a, ha, hm⟩ := List.exists_of_findSome?_eq_some h
  rw [shapes, List.mem_singleton] at ha
  subst ha
  have hmatch := Pattern.isMatch_of_find? hm
  obtain ⟨v, hv, -⟩ := Pattern.mem_ends_seq.mp hmatch.mem
  obtain ⟨v, hv, -⟩ := Pattern.mem_ends_seq.mp hv
  obtain ⟨v, hv, hbrace⟩ := Pattern.mem_ends_seq.mp hv
  obtain ⟨r, hafter, -⟩ := Pattern.mem_ends_chr.mp hbrace
  have hwhole : v.whole = code := (Pattern.whole_of_mem_ends _ _ v hv).trans hmatch.whole
  rw [← hwhole, Place.whole, hafter]
  simp

/-! ## Zones that begin later -/

namespace Site

variable {s : Site}

theorem le_ownEnd (hordered : ∀ line c, s.extents.find? line = some c → line ≤ c) {e : Int}
    (h : s.ownEnd = some e) : s.number ≤ e := by
  unfold ownEnd ownBlockEnd at h
  split at h
  · rename_i c hc
    cases h
    exact hordered _ _ hc
  · split at h
    · split at h
      · have hle := hordered _ _ h
        omega
      · cases h
    · cases h

/-- The zones that a line can yield, by the form of the guard. -/
theorem zones_cases (hz : z ∈ s.zones name) :
    (∃ kind m, (kind = .earlyReturn ∨ kind = .defaultCoalesce) ∧
      find? name kind (Source.code s.raw) = some m ∧
      z = { kind, startLine := s.number, scope := .afterLine, startCol := m.stopCol,
            endLine := s.around m.startCol }) ∨
    (∃ kind ∈ [GuardKind.truthiness, .compound, .explicitAbsence, .loop],
      z = { kind, startLine := s.number, scope := .insideBlock,
            endLine := some (s.ownEnd.getD (s.number + blockWindow)) }) ∨
    (∃ m, find? name .earlyReturnBlock (Source.code s.raw) = some m ∧
      z = { kind := .earlyReturnBlock, startLine := s.ownEnd.getD s.number, scope := .afterLine,
            endLine := s.around m.startCol }) ∨
    z = { kind := .optionalAccess, startLine := s.number, scope := .thisLineOnly } := by
  unfold zones at hz
  split at hz
  · cases hz
  · dsimp only at hz
    split at hz
    · cases hz
    · simp only [List.mem_append, Option.mem_toList] at hz
      rcases hz with (((hearly | hinside) | hblock) | hdefault) | hoptional
      · obtain ⟨m, hm, rfl⟩ := Option.map_eq_some_iff.mp hearly
        exact .inl ⟨.earlyReturn, m, .inl rfl, hm, rfl⟩
      · obtain ⟨kind, hkind, hzone⟩ := List.mem_filterMap.mp hinside
        obtain ⟨m, -, rfl⟩ := Option.map_eq_some_iff.mp hzone
        exact .inr (.inl ⟨kind, hkind, rfl⟩)
      · unfold afterBlockGuard at hblock
        split at hblock
        · rename_i m hm
          split at hblock
          · cases hblock
            exact .inr (.inr (.inl ⟨m, hm, rfl⟩))
          · cases hblock
        · cases hblock
      · obtain ⟨m, hm, rfl⟩ := Option.map_eq_some_iff.mp hdefault
        exact .inl ⟨.defaultCoalesce, m, .inr rfl, hm, rfl⟩
      · obtain ⟨m, -, rfl⟩ := Option.map_eq_some_iff.mp hoptional
        exact .inr (.inr (.inr rfl))

theorem le_startLine (hordered : ∀ line c, s.extents.find? line = some c → line ≤ c)
    (hz : z ∈ s.zones name) : s.number ≤ z.startLine := by
  obtain ⟨kind, m, -, -, rfl⟩ | ⟨kind, -, rfl⟩ | ⟨m, -, rfl⟩ | rfl := zones_cases hz
  · exact Int.le_refl _
  · exact Int.le_refl _
  · dsimp only
    cases hend : s.ownEnd with
    | none => exact Int.le_refl _
    | some e => exact le_ownEnd hordered hend
  · exact Int.le_refl _

end Site

theorem le_startLine_zonesFrom (hordered : ∀ line c, extents.find? line = some c → line ≤ c)
    (hz : z ∈ zonesFrom lines extents name n depth rest) : n ≤ z.startLine := by
  induction rest generalizing n depth with
  | nil => cases hz
  | cons l rest ih =>
    rcases List.mem_append.mp hz with hhere | hlater
    · exact Site.le_startLine (s := ⟨lines, extents, n, depth, l, rest⟩) hordered hhere
    · have hle := ih hlater
      omega

/-! ## What is safe -/

/-- Whether one of the zones makes a place safe for a name that is bound on line `first`. -/
def isSafe (zones : List SafeZone) (first line col : Int) : Bool :=
  zones.any fun z => first ≤ z.startLine && z.covers line col

theorem isSafe_append (zs zs' : List SafeZone) :
    isSafe (zs ++ zs') first line col = (isSafe zs first line col || isSafe zs' first line col) :=
  List.any_append

theorem isSafe_filterMap (kinds : List GuardKind) (f : GuardKind → Option SafeZone) :
    isSafe (kinds.filterMap f) first line col =
      kinds.any fun kind => isSafe (f kind).toList first line col := by
  induction kinds with
  | nil => rfl
  | cons kind rest ih =>
    rw [List.filterMap_cons, List.any_cons, ← ih]
    cases f kind with
    | none => rfl
    | some z => exact isSafe_append [z] (rest.filterMap f)

theorem isSafe_of_lt {zs : List SafeZone} (h : ∀ z ∈ zs, line < z.startLine) :
    isSafe zs first line col = false := by
  rw [isSafe, List.any_eq_false]
  intro z hz
  simp [SafeZone.covers_of_lt (h z hz)]

/-! ## The lines of the part -/

section Part

variable (h : Complete part own whole) (hpart : part = pre ++ l :: rest)

include hpart in
theorem number_add_length : (pre.length : Int) + 1 + rest.length = part.length := by
  rw [hpart, List.length_append, List.length_cons]
  omega

include h hpart in
/-- The block of a statement is found as before, unless it opens behind the part. -/
theorem ownBlockEnd_append (more : List Line) :
    ownBlockEnd whole (pre.length + 1) (rest ++ more) = ownBlockEnd own (pre.length + 1) rest ∨
      rest = [] ∧ own.find? (pre.length + 1) = none := by
  have hle := number_add_length hpart
  unfold ownBlockEnd
  rw [h.agree _ (by omega)]
  cases hown : own.find? (pre.length + 1) with
  | some e => exact .inl rfl
  | none =>
    cases rest with
    | nil => exact .inr ⟨rfl, rfl⟩
    | cons next rest =>
      rw [List.length_cons] at hle
      refine .inl ?_
      dsimp only [List.cons_append]
      rw [h.agree _ (by omega)]

include h hpart in
theorem isSafe_insideGuard_append (hline : line ≤ part.length) (more : List Line) :
    isSafe (Site.insideGuard ⟨part ++ more, whole, pre.length + 1, depth, l, rest ++ more⟩ name code
        kind).toList first line col =
      isSafe (Site.insideGuard ⟨part, own, pre.length + 1, depth, l, rest⟩ name code kind).toList
        first line col := by
  unfold Site.insideGuard Site.ownEnd
  rcases ownBlockEnd_append h hpart more with heq | ⟨hlast, -⟩
  · dsimp only
    rw [heq]
  · -- The guard stands on the last line, and both zones begin behind it.
    have hle := number_add_length hpart
    rw [hlast, List.length_nil] at hle
    cases find? name kind code with
    | none => rfl
    | some m =>
      have hcovers : ∀ e, SafeZone.covers
          { kind, startLine := pre.length + 1, scope := .insideBlock, endLine := e } line col =
            false :=
        fun e => SafeZone.covers_of_inside rfl (show line ≤ (pre.length : Int) + 1 by omega) col
      simp [isSafe, hcovers]

include h hpart in
theorem afterBlockGuard_append (hclosed : rest.foldl advance (advance depth l) = 0)
    (more : List Line) :
    Site.afterBlockGuard ⟨part ++ more, whole, pre.length + 1, depth, l, rest ++ more⟩ name
        (Source.code l) =
      Site.afterBlockGuard ⟨part, own, pre.length + 1, depth, l, rest⟩ name (Source.code l) := by
  unfold Site.afterBlockGuard
  split
  · rename_i m hm
    have hbrace : '{' ∈ l := (Source.code_isPrefix l).subset (brace_of_find? hm)
    have hat : part[pre.length]? = some l := by simp [hpart]
    obtain ⟨e, he⟩ := Option.isSome_iff_exists.mp (h.closed _ _ hat hbrace)
    rw [Int.add_comm] at he
    have hown : ownBlockEnd own (pre.length + 1) rest = some e := by
      unfold ownBlockEnd
      rw [he]
    have hwhole : ownBlockEnd whole (pre.length + 1) (rest ++ more) = some e := by
      rcases ownBlockEnd_append h hpart more with heq | ⟨-, hnone⟩
      · rw [heq, hown]
      · rw [he] at hnone
        cases hnone
    obtain ⟨hfrom, hto⟩ := h.bounded _ _ he
    have hexit : hasExit (part ++ more) (pre.length + 1) (some e) =
        hasExit part (pre.length + 1) (some e) := by
      unfold hasExit
      dsimp only [Option.getD_some]
      rw [Int.min_eq_left (b := (part.length : Int)) (by omega),
        Int.min_eq_left (b := ((part ++ more).length : Int)) (by rw [List.length_append]; omega)]
      rw [Text.slice_append part more (by omega) (by unfold exitLookahead; omega)]
    simp only [Site.ownEnd, hown, hwhole, hexit, Site.around, blockEnd_append hclosed]
  · rfl

include h hpart in
theorem isSafe_zones_append (hclosed : rest.foldl advance (advance depth l) = 0)
    (hline : line ≤ part.length) (more : List Line) :
    isSafe (Site.zones ⟨part ++ more, whole, pre.length + 1, depth, l, rest ++ more⟩ name)
        first line col =
      isSafe (Site.zones ⟨part, own, pre.length + 1, depth, l, rest⟩ name) first line col := by
  have hafter :
      ∀ kind, Site.afterGuard ⟨part ++ more, whole, pre.length + 1, depth, l, rest ++ more⟩
      name (Source.code l) kind =
      Site.afterGuard ⟨part, own, pre.length + 1, depth, l, rest⟩ name (Source.code l) kind := by
    intro kind
    simp only [Site.afterGuard, Site.around, blockEnd_append hclosed]
  unfold Site.zones
  dsimp only
  split
  · rfl
  · split
    · rfl
    · simp only [isSafe_append, isSafe_filterMap, hafter, afterBlockGuard_append h hpart hclosed,
        isSafe_insideGuard_append h hpart hline]
      rfl

end Part

theorem isSafe_zonesFrom_append (h : Complete part own whole) (hpart : part = pre ++ rest)
    (hclosed : rest.foldl advance depth = 0) (hline : line ≤ part.length) (more : List Line) :
    isSafe (zonesFrom (part ++ more) whole name (pre.length + 1) depth (rest ++ more))
      first line col =
      isSafe (zonesFrom part own name (pre.length + 1) depth rest) first line col := by
  induction rest generalizing pre depth with
  | nil =>
    have hlater : ∀ z ∈ zonesFrom (part ++ more) whole name (pre.length + 1) depth more,
        line < z.startLine := by
      intro z hz
      have hle := le_startLine_zonesFrom h.ordered hz
      rw [hpart, List.append_nil] at hline
      omega
    exact isSafe_of_lt hlater
  | cons l rest ih =>
    have hrest : part = (pre ++ [l]) ++ rest := by rw [hpart, List.append_assoc]; rfl
    have hnext : ((pre ++ [l]).length : Int) = pre.length + 1 := by simp
    have hih := ih hrest hclosed
    rw [hnext] at hih
    rw [List.cons_append, zonesFrom, zonesFrom, isSafe_append, isSafe_append, hih,
      isSafe_zones_append h hpart hclosed hline]

/-- What is safe on the lines of a complete part does not depend on what follows. -/
theorem isSafe_findZones_append (h : Complete part own whole) (hline : line ≤ part.length)
    (more : List Line) (name : String) :
    isSafe (findZones (part ++ more) name whole) first line col =
      isSafe (findZones part name own) first line col :=
  isSafe_zonesFrom_append h (List.nil_append part).symm h.balanced hline more

end Guard

end NullAccess
