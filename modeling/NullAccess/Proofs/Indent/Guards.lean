import NullAccess.Proofs.Indent.Margins

/-!
# Guards behind a margin

What a guard makes safe on its own line begins behind the guard, on all others with the line.  A
guard in an indented line begins and ends further on by the margin, so a column of the code is safe
exactly if that column behind the margin is (`isSafe_findZones_trim`).

Two forms of guard go to the end of the code.  One may take blanks behind the code into the match,
and then it ends behind every column of the code in both lines (`moved_of_exitClause`).  The other
asks for nothing but blanks up to the end (`find?_earlyReturnBlock_pads`).
-/

namespace NullAccess

open Text Pattern

/-! ## Parts that go to the end of the code -/

namespace Pattern

variable {a b : Pattern} {s v : Place} {t u w : List Char} {m m' : Match}

/-- What is left behind a match in a text, and in the text with more behind it: the same, or nothing
of the text in both. -/
def Ran (w : List Char) (left left' : List Char) : Prop :=
  left' = left ++ w ∨ left = [] ∧ left'.length ≤ w.length

/-- Whether the preferred ends of a pattern, which it always has, keep this. -/
def RunsOn (w : List Char) (a : Pattern) : Prop :=
  ∀ v v' : Place, Ran w v.after v'.after → ∃ e e', (a.ends v).head? = some e ∧
    (a.ends v').head? = some e' ∧ Ran w e.after e'.after

theorem RunsOn.append (ha : RunsOn w a) (hb : RunsOn w b) : RunsOn w (a ++ b) := by
  intro v v' hv
  obtain ⟨x, x', hx, hx', hran⟩ := ha v v' hv
  obtain ⟨e, e', he, he', hend⟩ := hb x x' hran
  exact ⟨e, e', head?_ends_seq hx he, head?_ends_seq hx' he', hend⟩

theorem head?_ends_many_of (q : Char → Bool) (v : Place) :
    ∃ e, ((many (one q)).ends v).head? = some e ∧ e.after = v.after.dropWhile q := by
  have hread : ∀ c ∈ v.after.takeWhile q, q c = true := fun c hc => List.mem_takeWhile_imp hc
  have hleft : ∀ c ∈ (v.after.dropWhile q).head?, q c = false := by
    intro c hc
    have h := List.head?_dropWhile_not q v.after
    rw [hc] at h
    exact h
  have hrun := head?_ends_many hread hleft v.before v.groups
  rw [List.takeWhile_append_dropWhile] at hrun
  exact ⟨_, hrun, rfl⟩

theorem runsOn_many (w : List Char) (q : Char → Bool) : RunsOn w (many (one q)) := by
  intro v v' hv
  obtain ⟨e, he, hafter⟩ := head?_ends_many_of q v
  obtain ⟨e', he', hafter'⟩ := head?_ends_many_of q v'
  refine ⟨e, e', he, he', ?_⟩
  have hshort : ∀ x : List Char, (x.dropWhile q).length ≤ x.length := fun x =>
    (List.dropWhile_suffix q).length_le
  rw [hafter, hafter']
  rcases hv with hv | ⟨hnil, hle⟩
  · rw [hv, List.dropWhile_append]
    cases hleft : v.after.dropWhile q with
    | nil => exact .inr ⟨rfl, hshort w⟩
    | cons c r => exact .inl rfl
  · rw [hnil]
    exact .inr ⟨rfl, (hshort v'.after).trans hle⟩

theorem head?_ends_opt (c : Char) (v : Place) :
    ∃ e, ((opt (chr c)).ends v).head? = some e ∧
      e.after = if v.after.head? = some c then v.after.tail else v.after := by
  obtain ⟨before, after, groups⟩ := v
  cases after with
  | nil => exact ⟨_, rfl, rfl⟩
  | cons d r => by_cases hd : d = c <;> simp [opt, chr, ends, hd]

theorem runsOn_opt (w : List Char) (c : Char) : RunsOn w (opt (chr c)) := by
  intro v v' hv
  obtain ⟨e, he, hafter⟩ := head?_ends_opt c v
  obtain ⟨e', he', hafter'⟩ := head?_ends_opt c v'
  refine ⟨e, e', he, he', ?_⟩
  have hshort : ∀ x : List Char, (if x.head? = some c then x.tail else x).length ≤ x.length := by
    intro x
    split
    · rw [List.length_tail]
      omega
    · exact Nat.le_refl _
  rw [hafter, hafter']
  rcases hv with hv | ⟨hnil, hle⟩
  · rw [hv]
    cases v.after with
    | nil => exact .inr ⟨rfl, hshort w⟩
    | cons d r =>
      refine .inl ?_
      rw [List.cons_append, List.head?_cons, List.head?_cons]
      split <;> rfl
  · rw [hnil]
    exact .inr ⟨rfl, (hshort v'.after).trans hle⟩

/-- A match whose tail runs on begins where it began, and ends where it ended or behind the text. -/
theorem matchAt_runsOn (ha : Steady a) (hb : RunsOn w b) (hu : IsPad u) (hw : IsPad w) (s : Place) :
    Option.Rel (fun m' m : Match => m'.first = (m.first.trail w).indent u ∧
        Ran w m.last.after m'.last.after)
      ((a ++ b).matchAt ((s.trail w).indent u)) ((a ++ b).matchAt s) := by
  have hpads := ends_pads ha hu hw s
  cases hends : a.ends s with
  | nil =>
    rw [hends, List.map_nil] at hpads
    rw [matchAt_eq_none_iff.mpr (by rw [ends_seq, hpads]; rfl),
      matchAt_eq_none_iff.mpr (by rw [ends_seq, hends]; rfl)]
    exact .none
  | cons v rest =>
    rw [hends, List.map_cons] at hpads
    obtain ⟨e, e', he, he', hran⟩ := hb v ((v.trail w).indent u) (.inl rfl)
    rw [matchAt_eq, matchAt_eq,
      head?_ends_seq (show (a.ends s).head? = some v by rw [hends, List.head?_cons]) he,
      head?_ends_seq (show (a.ends ((s.trail w).indent u)).head? = some ((v.trail w).indent u) by
        rw [hpads, List.head?_cons]) he']
    exact .some ⟨rfl, hran⟩

theorem isPad_append_iff (hw : IsPad w) : IsPad (t ++ w) ↔ IsPad t := by
  refine ⟨fun h c hc => h c (List.mem_append_left w hc), fun h c hc => ?_⟩
  rcases List.mem_append.mp hc with hc | hc
  · exact h c hc
  · exact hw c hc

/-- Nothing but blanks up to the end. -/
theorem ends_blanks_stop : (blanks ++ stop).ends v ≠ [] ↔ IsPad v.after := by
  obtain ⟨before, after, groups⟩ := v
  constructor
  · intro h
    obtain ⟨e, he⟩ := List.exists_mem_of_ne_nil _ h
    obtain ⟨x, hx, hstop⟩ := mem_ends_seq.mp he
    obtain ⟨p, r, rfl, hp, rfl⟩ := (mem_rounds_one after before ' ' groups).mp hx
    have hlast : r = [] ∨ r = ['\n'] := by
      rw [ends] at hstop
      split at hstop
      · rename_i hat
        simpa [Place.atStop] using hat
      · cases hstop
    rcases hlast with rfl | rfl
    · exact (isPad_append_iff isPad_nil).mpr hp
    · refine (isPad_append_iff ?_).mpr hp
      intro c hc
      rw [List.mem_singleton.mp hc]
      rfl
  · intro h hnil
    have hend : (⟨after.reverse ++ before, [], groups⟩ : Place) ∈
        (blanks ++ stop).ends ⟨before, after, groups⟩ :=
      mem_ends_seq.mpr ⟨_, (mem_rounds_one after before ' ' groups).mpr
        ⟨after, [], (List.append_nil _).symm, h, rfl⟩, List.mem_singleton.mpr rfl⟩
    rw [hnil] at hend
    cases hend

/-- A match that goes to the end but for blanks begins where it began. -/
theorem matchAt_blanks_stop (ha : Steady a) (hu : IsPad u) (hw : IsPad w) (s : Place) :
    Option.Rel (fun m' m : Match => m'.first = (m.first.trail w).indent u)
      ((a ++ (blanks ++ stop)).matchAt ((s.trail w).indent u))
      ((a ++ (blanks ++ stop)).matchAt s) := by
  have hends : ∀ s, (a ++ (blanks ++ stop)).ends s ≠ [] ↔ ∃ v ∈ a.ends s, IsPad v.after := by
    intro s
    rw [ends_seq, Ne, List.flatMap_eq_nil_iff, not_forall]
    simp only [ends_blanks_stop, ← ne_eq, Classical.not_imp]
  have hiff : (a ++ (blanks ++ stop)).ends ((s.trail w).indent u) ≠ [] ↔
      (a ++ (blanks ++ stop)).ends s ≠ [] := by
    rw [hends, hends, ends_pads ha hu hw]
    simp only [List.mem_map, exists_exists_and_eq_and]
    refine exists_congr fun v => and_congr_right fun _ => ?_
    exact isPad_append_iff hw
  rw [matchAt_eq, matchAt_eq]
  cases hx : (a ++ (blanks ++ stop)).ends ((s.trail w).indent u) with
  | nil =>
    have hy : (a ++ (blanks ++ stop)).ends s = [] := by
      by_contra hne
      exact hiff.mpr hne hx
    rw [hy]
    exact .none
  | cons e' _ =>
    cases hy : (a ++ (blanks ++ stop)).ends s with
    | nil => exact absurd hy (hiff.mp (by rw [hx]; exact List.cons_ne_nil _ _))
    | cons e _ => exact .some rfl

end Pattern

/-! ## Where a guard begins and ends -/

namespace Guard

variable {name : List Char} {kind : GuardKind} {t u w : List Char}

/-- A match behind a margin that begins where the other begins, and ends before the same columns. -/
structure Moved (u t : List Char) (m' m : Match) : Prop where
  start : m'.startCol = m.startCol + u.length
  within : m.startCol ≤ t.length
  stop : ∀ col < t.length, m'.stopCol ≤ col + u.length ↔ m.stopCol ≤ col

theorem startCol_of_first {m m' : Match} (h : m'.first = (m.first.trail w).indent u) :
    m'.startCol = m.startCol + u.length := by
  rw [Match.startCol, h]
  exact Place.column_indent u _

theorem moved_of_steady {a : Pattern} (ha : Steady a) (hu : IsPad u)
    (hw : IsPad w) (t : List Char) :
    Option.Rel (Moved u t) (a.find? (u ++ t ++ w)) (a.find? t) := by
  rw [find?_pads ha hu hw]
  cases hm : a.find? t with
  | none => exact .none
  | some m =>
    refine .some ⟨Match.startCol_between u w m, (isMatch_of_find? hm).startCol_le, fun col _ => ?_⟩
    rw [Match.stopCol_between]
    omega

theorem moved_of_runsOn {a b : Pattern} (ha : Steady a) (hstarts : (a ++ b).startsInked = true)
    (hb : RunsOn w b) (hu : IsPad u) (hw : IsPad w) (t : List Char) :
    Option.Rel (Moved u t) ((a ++ b).find? (u ++ t ++ w)) ((a ++ b).find? t) := by
  refine rel_imp (find?_related hstarts hu hw (matchAt_runsOn ha hb hu hw) t) ?_
  intro m' m hm' hm ⟨hfirst, hran⟩
  have hlength := (isMatch_of_find? hm).stopCol_add_after
  have hlength' := (isMatch_of_find? hm').stopCol_add_after
  simp only [List.length_append] at hlength'
  refine ⟨startCol_of_first hfirst, (isMatch_of_find? hm).startCol_le, fun col hcol => ?_⟩
  rcases hran with hsame | ⟨hnil, hle⟩
  · rw [hsame, List.length_append] at hlength'
    omega
  · rw [hnil, List.length_nil] at hlength
    omega

/-! ## The forms of guard -/

/-- A guard that leaves, up to its leaving. -/
def exitHead (exits : List String) : Pattern :=
  chr ')' ++ blanks ++ opt (chr '{') ++ blanks ++ anyOf exits ++ edge

/-- What follows the leaving. -/
def exitTail : Pattern :=
  many (one fun c => c != ';' && c != '}') ++ (opt (chr ';') ++ (blanks ++ opt (chr '}')))

theorem ends_exitClause (a : Pattern) (exits : List String) (s : Place) :
    (a ++ exitClause exits).ends s = (a ++ exitHead exits ++ exitTail).ends s := by
  have hclause : ∀ s, (exitClause exits).ends s = (exitHead exits ++ exitTail).ends s := by
    intro s
    rw [exitClause, ends_seq_assoc, ends_seq_assoc, ends_seq_assoc]
    rfl
  rw [ends_seq_assoc, ends_seq, ends_seq, funext hclause]

theorem runsOn_exitTail (w : List Char) : RunsOn w exitTail :=
  (runsOn_many w _).append ((runsOn_opt w ';').append ((runsOn_many w _).append (runsOn_opt w '}')))

theorem moved_of_exitClause {a : Pattern} {exits : List String} (ha : Steady (a ++ exitHead exits))
    (hstarts : (a ++ exitHead exits ++ exitTail).startsInked = true) (hu : IsPad u) (hw : IsPad w)
    (t : List Char) :
    Option.Rel (Moved u t) ((a ++ exitClause exits).find? (u ++ t ++ w))
      ((a ++ exitClause exits).find? t) := by
  rw [Pattern.find?, Pattern.find?, findIn_congr (ends_exitClause a exits),
    findIn_congr (ends_exitClause a exits)]
  exact moved_of_runsOn ha hstarts (runsOn_exitTail w) hu hw t

theorem rel_findSome? {R : Match → Match → Prop} {x y : List Char} {as : List Pattern}
    (h : ∀ a ∈ as, Option.Rel R (a.find? x) (a.find? y)) :
    Option.Rel R (as.findSome? (·.find? x)) (as.findSome? (·.find? y)) := by
  induction as with
  | nil => exact .none
  | cons a rest ih =>
    obtain ⟨hfirst, hrest⟩ := List.forall_mem_cons.mp h
    rw [List.findSome?_cons, List.findSome?_cons]
    generalize a.find? x = m', a.find? y = m at hfirst
    cases hfirst with
    | some hm => exact .some hm
    | none => exact ih hrest

section Named

variable (hname : IsInk name) (hu : IsPad u) (hw : IsPad w)

include hname hu hw

/-- Behind the margin a guard is found where it is found in the code alone. -/
theorem moved_find? (hblock : kind ≠ .earlyReturnBlock) (t : List Char) :
    Option.Rel (Moved u t) (find? name kind (u ++ t ++ w)) (find? name kind t) := by
  refine rel_findSome? fun a ha => ?_
  by_cases hearly : kind = .earlyReturn
  · have hoperand := solid_operand hname
    subst hearly
    simp only [shapes, List.mem_cons, List.not_mem_nil, or_false] at ha
    rcases ha with rfl | rfl
    · refine moved_of_exitClause (.of_checks rfl ?_) rfl hu hw t
      simp only [exitHead, ignoresIndent_append, loose_append, stays_append, inked_append,
        hoperand.ignores, hoperand.loose, hoperand.stays, hoperand.inked]
      decide +kernel
    · refine moved_of_exitClause (.of_checks rfl ?_) rfl hu hw t
      simp only [exitHead, ignoresIndent_append, loose_append, stays_append, inked_append,
        hoperand.ignores, hoperand.loose, hoperand.stays, hoperand.inked]
      decide +kernel
  · exact moved_of_steady (steady_of_mem_shapes hname hearly hblock a ha) hu hw t

theorem find?_earlyReturnBlock_pads (t : List Char) :
    Option.Rel (fun m' m : Match => m'.startCol = m.startCol + u.length ∧ m.startCol ≤ t.length)
      (find? name .earlyReturnBlock (u ++ t ++ w)) (find? name .earlyReturnBlock t) := by
  refine rel_findSome? fun a ha => ?_
  have hoperand := solid_operand hname
  simp only [shapes, List.mem_cons, List.not_mem_nil, or_false] at ha
  subst ha
  rw [Pattern.find?, Pattern.find?, findIn_congr (ends_seq_assoc _ blanks stop),
    findIn_congr (ends_seq_assoc _ blanks stop)]
  refine rel_imp (find?_related rfl hu hw (matchAt_blanks_stop (.of_checks rfl ?_) hu hw) t)
    fun m' m _ hm hfirst => ⟨startCol_of_first hfirst, (isMatch_of_find? hm).startCol_le⟩
  simp only [ignoresIndent_append, ignoresIndent_orElse, loose_append, loose_orElse, stays_append,
    stays_orElse, inked_append, inked_orElse, hoperand.ignores, hoperand.loose, hoperand.stays,
    hoperand.inked]
  decide +kernel

end Named

/-! ## What is safe -/

section Safe

variable {s : Site} {first line : Int} {k col : Nat}

/-- Zones of related guards make a place safe alike, if each does. -/
theorem isSafe_related {R : Match → Match → Prop} {x y : Option Match} {f g : Match → SafeZone}
    {c c' : Int} (h : Option.Rel R x y)
    (hzone : ∀ m' m, R m' m → (f m').startLine = (g m).startLine ∧
      (f m').covers line c' = (g m).covers line c) :
    isSafe (x.map f).toList first line c' = isSafe (y.map g).toList first line c := by
  cases h with
  | none => rfl
  | some hm =>
    obtain ⟨hstart, hcovers⟩ := hzone _ _ hm
    simp only [isSafe, Option.map_some, Option.toList_some, List.any_cons, List.any_nil, hstart,
      hcovers]

namespace Site

/-- The line of the trimmed file. -/
def flush (s : Site) : Site :=
  ⟨s.lines.map trim, s.extents, s.number, s.depth, trim s.raw, s.rest.map trim⟩

/-- Whether a column behind `k` characters, if it is on this line, is in the code behind the
margin. -/
def Meets (s : Site) (line : Int) (k col : Nat) : Prop :=
  line = s.number → k = (margin s.raw).length ∧ col < (Source.code (trim s.raw)).length

theorem ownEnd_flush (s : Site) : s.flush.ownEnd = s.ownEnd :=
  keepsBlocks_trim.ownBlockEnd_map s.extents s.number s.rest

theorem around_flush (s : Site) (hcol : col ≤ (Source.code (trim s.raw)).length) :
    s.around (col + (margin s.raw).length) = s.flush.around col :=
  blockEnd_trim s.depth s.raw s.rest s.number
    (hcol.trans (Source.code_isPrefix (trim s.raw)).length_le)

theorem afterBlockGuard_eq (s : Site) (name code : List Char) :
    s.afterBlockGuard name code =
      if hasExit s.lines s.number s.ownEnd then
        (Guard.find? name .earlyReturnBlock code).map fun m =>
          { kind := .earlyReturnBlock, startLine := s.ownEnd.getD s.number, scope := .afterLine,
            endLine := s.around m.startCol }
      else none := by
  unfold afterBlockGuard
  cases Guard.find? name .earlyReturnBlock code with
  | none => simp
  | some m => simp

variable (hname : IsInk name)

include hname

theorem isSafe_insideGuard_flush (hblock : kind ≠ .earlyReturnBlock) :
    isSafe (s.insideGuard name (Source.code s.raw) kind).toList first line (col + k : Nat) =
      isSafe (s.flush.insideGuard name (Source.code (trim s.raw)) kind).toList first line col := by
  obtain ⟨w, hw, hcode⟩ := Source.code_eq s.raw
  rw [hcode]
  refine isSafe_related (moved_find? hname (isPad_margin s.raw) hw hblock _) fun m' m _ => ?_
  rw [ownEnd_flush]
  exact ⟨rfl, rfl⟩

theorem isSafe_optionalGuard_flush :
    isSafe (s.optionalGuard name (Source.code s.raw)).toList first line (col + k : Nat) =
      isSafe (s.flush.optionalGuard name (Source.code (trim s.raw))).toList first line col := by
  obtain ⟨w, hw, hcode⟩ := Source.code_eq s.raw
  rw [hcode]
  refine isSafe_related (moved_find? hname (isPad_margin s.raw) hw (by decide) _) fun m' m _ => ?_
  exact ⟨rfl, rfl⟩

theorem isSafe_afterGuard_flush (hmeets : s.Meets line k col) (hblock : kind ≠ .earlyReturnBlock) :
    isSafe (s.afterGuard name (Source.code s.raw) kind).toList first line (col + k : Nat) =
      isSafe (s.flush.afterGuard name (Source.code (trim s.raw)) kind).toList first line col := by
  obtain ⟨w, hw, hcode⟩ := Source.code_eq s.raw
  rw [hcode]
  refine isSafe_related (moved_find? hname (isPad_margin s.raw) hw hblock _) fun m' m hmoved => ?_
  refine ⟨rfl, ?_⟩
  dsimp only [SafeZone.covers]
  rw [hmoved.start, around_flush s hmoved.within, show s.flush.number = s.number from rfl]
  split
  · rfl
  · split
    · rename_i hline
      obtain ⟨rfl, hcol⟩ := hmeets hline
      have hstop := hmoved.stop col hcol
      rw [decide_eq_decide]
      exact_mod_cast hstop
    · rfl

theorem isSafe_afterBlockGuard_flush :
    isSafe (s.afterBlockGuard name (Source.code s.raw)).toList first line (col + k : Nat) =
      isSafe (s.flush.afterBlockGuard name (Source.code (trim s.raw))).toList first line col := by
  obtain ⟨w, hw, hcode⟩ := Source.code_eq s.raw
  have hexit : hasExit s.flush.lines s.number s.ownEnd = hasExit s.lines s.number s.ownEnd :=
    keepsBlocks_trim.hasExit_map s.lines s.number s.ownEnd
  rw [afterBlockGuard_eq, afterBlockGuard_eq, ownEnd_flush, show s.flush.number = s.number from rfl,
    hexit, hcode]
  split
  · refine isSafe_related (find?_earlyReturnBlock_pads hname (isPad_margin s.raw) hw _)
      fun m' m ⟨hstart, hwithin⟩ => ?_
    refine ⟨rfl, ?_⟩
    -- Both zones begin with a line, so every column of it is behind their beginning.
    have hcols : (0 : Int) ≤ (col + k : Nat) ∧ (0 : Int) ≤ col := by omega
    dsimp only [SafeZone.covers]
    rw [hstart, around_flush s hwithin]
    simp only [hcols, decide_true]
  · rfl

theorem isSafe_zones_flush (hmeets : s.Meets line k col) :
    isSafe (s.zones name) first line (col + k : Nat) =
      isSafe (s.flush.zones name) first line col := by
  have hcomment : Source.isCommentLine s.flush.raw = Source.isCommentLine s.raw :=
    Source.isCommentLine_trim s.raw
  unfold zones
  rw [hcomment]
  split
  · rfl
  · dsimp only
    rw [show s.flush.raw = trim s.raw from rfl, Source.holds_code_trim hname]
    split
    · rfl
    · simp only [isSafe_append, isSafe_filterMap, List.any_cons, List.any_nil,
        isSafe_afterGuard_flush hname hmeets, isSafe_insideGuard_flush hname,
        isSafe_afterBlockGuard_flush hname, isSafe_optionalGuard_flush hname, ne_eq, reduceCtorEq,
        not_false_eq_true]

end Site

theorem isSafe_zonesFrom_trim (hname : IsInk name) (lines : List Line) (extents : Extents) {n : Int}
    {depth : Nat} {rest : List Line}
    (hmeets : ∀ (i : Nat) raw, rest[i]? = some raw → line = n + i →
      k = (margin raw).length ∧ col < (Source.code (trim raw)).length) :
    isSafe (zonesFrom lines extents name n depth rest) first line (col + k : Nat) =
      isSafe (zonesFrom (lines.map trim) extents name n depth (rest.map trim)) first line col := by
  induction rest generalizing n depth with
  | nil => rfl
  | cons l rest ih =>
    have hhere : Site.Meets ⟨lines, extents, n, depth, l, rest⟩ line k col := fun hline =>
      hmeets 0 l rfl (hline.trans (Int.add_zero n).symm)
    have hlater : ∀ (i : Nat) raw, rest[i]? = some raw → line = n + 1 + i →
        k = (margin raw).length ∧ col < (Source.code (trim raw)).length := fun i raw hraw hline =>
      hmeets (i + 1) raw hraw (by omega)
    rw [List.map_cons, zonesFrom, zonesFrom, isSafe_append, isSafe_append,
      Site.isSafe_zones_flush hname hhere, ih hlater, keepsBlocks_trim.advance]
    rfl

/-- A column of the code is safe in the trimmed file exactly if that column behind the margin is
safe in the file. -/
theorem isSafe_findZones_trim {lines : List Line} {name : String} (hname : IsInk name.toList)
    (extents : Extents) {i : Nat} {raw : Line} (hraw : lines[i]? = some raw) {col : Nat}
    (hcol : col < (Source.code (trim raw)).length) (first : Int) :
    isSafe (findZones lines name extents) first (1 + i) (col + (margin raw).length : Nat) =
      isSafe (findZones (lines.map trim) name extents) first (1 + i) col := by
  refine isSafe_zonesFrom_trim hname lines extents fun j raw' hraw' hline => ?_
  obtain rfl : j = i := by omega
  obtain rfl : raw' = raw := Option.some_inj.mp (hraw'.symm.trans hraw)
  exact ⟨rfl, hcol⟩

end Safe

end Guard

end NullAccess
