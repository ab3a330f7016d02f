import NullAccess.Proofs.Pattern.Padded

/-!
# Searching a text between blanks

A search that starts in the blanks before a text comes to the text with nothing found, for no match
begins with a blank (`startsInked`), and in the blanks behind the text it finds nothing either.  So
what holds of the match at every place of the text holds of the first match (`find?_related`).  For
a pattern that sees neither blanks before the text nor behind it (`Steady`) the search finds what it
finds in the text alone, moved by the blanks before it (`find?_pads`, `findAll_pads`).

Patterns that ask for the beginning of the text are compared by what stands behind its blanks
(`occursIn_anchored`).
-/

namespace NullAccess

open Text

theorem Place.trail_nil (s : Place) : s.trail [] = s := by
  simp [trail]

namespace Pattern

variable {a b : Pattern} {s : Place} {t u w : List Char} {m : Match}

/-- The match in the text between blanks. -/
def Match.between (u w : List Char) (m : Match) : Match :=
  ⟨(m.first.trail w).indent u, (m.last.trail w).indent u⟩

namespace Match

theorem startCol_between (u w : List Char) (m : Match) :
    (m.between u w).startCol = m.startCol + u.length := Place.column_indent u _

theorem stopCol_between (u w : List Char) (m : Match) :
    (m.between u w).stopCol = m.stopCol + u.length := Place.column_indent u _

theorem group_between (u w : List Char) (m : Match) (n : Nat) :
    (m.between u w).group n = m.group n := by
  rw [group, group, group?, group?]
  exact congrArg (Option.getD · []) (Place.group?_trail w m.last n)

end Match

/-! ## The first match -/

/-- Whether every match begins with a character that is no blank. -/
def startsInked (a : Pattern) : Bool :=
  match a.heads none with
  | some p => rejectsBlanks p
  | none => false

theorem matchAt_of_startsInked (h : a.startsInked = true)
    (hs : ∀ c ∈ s.after.head?, isBlank c = true) : a.matchAt s = none := by
  refine matchAt_eq_none_of_heads ?_
  unfold startsInked at h
  cases hheads : a.heads none with
  | none =>
    rw [hheads] at h
    cases h
  | some p =>
    rw [hheads] at h
    cases hafter : s.after with
    | nil => rfl
    | cons c r =>
      rw [hafter] at hs
      exact eq_false_of_rejectsBlanks h (hs c rfl)

theorem findIn_skip (h : a.startsInked = true) (hu : IsPad u) (before t : List Char) :
    a.findIn before (u ++ t) = a.findIn (u.reverse ++ before) t := by
  induction u generalizing before with
  | nil => rfl
  | cons c u ih =>
    obtain ⟨hc, hu⟩ := List.forall_mem_cons.mp hu
    have hhere : a.matchAt ⟨before, c :: (u ++ t), []⟩ = none := by
      refine matchAt_of_startsInked h ?_
      rintro d ⟨⟩
      exact hc
    rw [List.cons_append, findIn_cons, hhere, List.reverse_cons, List.append_assoc]
    exact ih hu (c :: before)

theorem findIn_pad (h : a.startsInked = true) (hw : IsPad w) (before : List Char) :
    a.findIn before w = none := by
  have hend : a.findIn before (w ++ []) = none := by
    rw [findIn_skip h hw, findIn_nil]
    exact matchAt_of_startsInked h nofun
  rwa [List.append_nil] at hend

theorem rel_orElse {R : Match → Match → Prop} {x x' y y' : Option Match} (h : Option.Rel R x y)
    (h' : Option.Rel R x' y') : Option.Rel R (x <|> x') (y <|> y') := by
  cases h with
  | some hm => exact .some hm
  | none => exact h'

/-- Whatever relates the matches at each place of the text relates the first matches. -/
theorem findIn_related {R : Match → Match → Prop} (h : a.startsInked = true) (hw : IsPad w)
    (hR : ∀ s : Place, Option.Rel R (a.matchAt ((s.trail w).indent u)) (a.matchAt s))
    (before t : List Char) :
    Option.Rel R (a.findIn (before ++ u.reverse) (t ++ w)) (a.findIn before t) := by
  induction t generalizing before with
  | nil =>
    rw [List.nil_append, findIn_pad h hw, findIn_pad h isPad_nil]
    exact .none
  | cons c r ih =>
    have hhere : Option.Rel R (a.matchAt ⟨before ++ u.reverse, c :: (r ++ w), []⟩)
        (a.matchAt ⟨before, c :: r, []⟩) := hR ⟨before, c :: r, []⟩
    rw [List.cons_append, findIn_cons, findIn_cons]
    exact rel_orElse hhere (ih (c :: before))

theorem find?_related {R : Match → Match → Prop} (h : a.startsInked = true) (hu : IsPad u)
    (hw : IsPad w)
    (hR : ∀ s : Place, Option.Rel R (a.matchAt ((s.trail w).indent u)) (a.matchAt s))
    (t : List Char) : Option.Rel R (a.find? (u ++ t ++ w)) (a.find? t) := by
  rw [find?, find?, List.append_assoc, findIn_skip h hu, List.append_nil]
  exact findIn_related h hw hR [] t

theorem rel_imp {R S : Match → Match → Prop} {x y : Option Match} (h : Option.Rel R x y)
    (hRS : ∀ m' m, x = some m' → y = some m → R m' m → S m' m) : Option.Rel S x y := by
  cases h with
  | some hm => exact .some (hRS _ _ rfl rfl hm)
  | none => exact .none

theorem eq_none_of_rel {R : Match → Match → Prop} {x : Option Match} (h : Option.Rel R x none) :
    x = none := by
  cases h
  rfl

theorem exists_of_rel {R : Match → Match → Prop} {x : Option Match} (h : Option.Rel R x (some m)) :
    ∃ m', x = some m' ∧ R m' m := by
  cases h with
  | some hm => exact ⟨_, rfl, hm⟩

theorem eq_map_of_rel {f : Match → Match} {x y : Option Match}
    (h : Option.Rel (fun m' m => m' = f m) x y) : x = y.map f := by
  cases h with
  | some hm => rw [hm, Option.map_some]
  | none => rfl

/-- Whether a pattern sees no blanks around the text. -/
structure Steady (a : Pattern) : Prop where
  starts : a.startsInked = true
  ignores : a.ignoresIndent = true
  loose : a.loose = true
  stays : a.stays = true

theorem Steady.of_checks (h : a.startsInked = true)
    (hchecks : (a.ignoresIndent && a.loose && a.stays) = true) : Steady a := by
  simp only [Bool.and_eq_true] at hchecks
  exact ⟨h, hchecks.1.1, hchecks.1.2, hchecks.2⟩

theorem ends_pads (ha : Steady a) (hu : IsPad u) (hw : IsPad w) (s : Place) :
    a.ends ((s.trail w).indent u) = (a.ends s).map fun t => (t.trail w).indent u := by
  rw [ends_indent hu a ha.ignores, ends_trail hw ha.loose ha.stays, List.map_map]
  rfl

theorem matchAt_pads (ha : Steady a) (hu : IsPad u) (hw : IsPad w) (s : Place) :
    a.matchAt ((s.trail w).indent u) = (a.matchAt s).map (Match.between u w) := by
  rw [matchAt_eq, matchAt_eq, ends_pads ha hu hw, List.head?_map, Option.map_map, Option.map_map]
  rfl

theorem findIn_pads (ha : Steady a) (hu : IsPad u) (hw : IsPad w) (before t : List Char) :
    a.findIn (before ++ u.reverse) (t ++ w) = (a.findIn before t).map (Match.between u w) := by
  refine eq_map_of_rel (findIn_related ha.starts hw (fun s => ?_) before t)
  rw [matchAt_pads ha hu hw]
  cases a.matchAt s with
  | none => exact .none
  | some m => exact .some rfl

theorem find?_pads (ha : Steady a) (hu : IsPad u) (hw : IsPad w) (t : List Char) :
    a.find? (u ++ t ++ w) = (a.find? t).map (Match.between u w) := by
  rw [find?, find?, List.append_assoc, findIn_skip ha.starts hu, List.append_nil]
  exact findIn_pads ha hu hw [] t

theorem occursIn_pads (ha : Steady a) (hu : IsPad u) (hw : IsPad w) (t : List Char) :
    a.occursIn (u ++ t ++ w) = a.occursIn t := by
  rw [occursIn, occursIn, find?_pads ha hu hw, Option.isSome_map]

theorem findFrom_pads (ha : Steady a) (hu : IsPad u) (hw : IsPad w) (s : Place) :
    a.findFrom ((s.trail w).indent u) = (a.findFrom s).map (Match.between u w) :=
  findIn_pads ha hu hw s.before s.after

/-- Before the text alone, also a pattern that asks for the end of the text sees no blanks. -/
theorem find?_indent (h : a.startsInked = true) (ha : a.ignoresIndent = true) (hu : IsPad u)
    (t : List Char) : a.find? (u ++ t) = (a.find? t).map (Match.between u []) := by
  have hrel := find?_related (R := fun m' m => m' = m.between u []) h hu isPad_nil
    (fun s => ?_) t
  · rw [List.append_nil] at hrel
    exact eq_map_of_rel hrel
  · rw [Place.trail_nil, matchAt_eq, matchAt_eq, ends_indent hu a ha, List.head?_map]
    cases (a.ends s).head? with
    | none => exact .none
    | some t =>
      refine .some ?_
      rw [Match.between, Place.trail_nil, Place.trail_nil]

/-- A search goes by the ends alone. -/
theorem findIn_congr (h : ∀ s, a.ends s = b.ends s) (before t : List Char) :
    a.findIn before t = b.findIn before t := by
  have hhere : ∀ s, a.matchAt s = b.matchAt s := by
    intro s
    rw [matchAt_eq, matchAt_eq, h]
  induction t generalizing before with
  | nil => rw [findIn_nil, findIn_nil, hhere]
  | cons c r ih => rw [findIn_cons, findIn_cons, hhere, ih]

theorem occursIn_congr (h : ∀ s, a.ends s = b.ends s) (t : List Char) :
    a.occursIn t = b.occursIn t := by
  rw [occursIn, occursIn, find?, find?, findIn_congr h]

theorem ends_seq_assoc (a b c : Pattern) (s : Place) :
    ((a ++ b) ++ c).ends s = (a ++ (b ++ c)).ends s := List.flatMap_assoc

/-! ## All matches -/

/-- Behind a match that reads something the search goes on where it ends. -/
theorem findAllFrom_succ (hreads : a.reads = true) (n : Nat) (s : Place) :
    a.search.findAllFrom (n + 1) s =
      match a.findFrom s with
      | none => []
      | some m => m :: a.search.findAllFrom n m.last := by
  rw [Search.findAllFrom]
  change (match a.findFrom s with
    | none => _
    | some m => _) = _
  cases hm : a.findFrom s with
  | none => rfl
  | some m =>
    have hlt := ends_lt hreads (isMatch_of_findIn hm).mem
    have hfurther : further m.first m.last = true := by simpa [further] using hlt
    exact if_pos hfurther

theorem after_of_findIn {before r : List Char} (h : a.findIn before r = some m) :
    m.first.after.length ≤ r.length := by
  induction r generalizing before with
  | nil =>
    rw [findIn_nil, matchAt_eq, Option.map_eq_some_iff] at h
    obtain ⟨v, -, rfl⟩ := h
    exact Nat.le_refl _
  | cons c r ih =>
    rw [findIn_cons, matchAt_eq] at h
    cases hhere : (a.ends ⟨before, c :: r, []⟩).head? with
    | some v =>
      rw [hhere] at h
      cases h
      exact Nat.le_refl _
    | none =>
      rw [hhere] at h
      exact Nat.le_succ_of_le (ih h)

/-- A round for each character that is left, and one more, are enough rounds. -/
theorem findAllFrom_pads (ha : Steady a) (hreads : a.reads = true) (hu : IsPad u) (hw : IsPad w)
    {n n' : Nat} {s : Place} (hn : s.after.length < n) (hn' : s.after.length < n') :
    a.search.findAllFrom n' ((s.trail w).indent u) =
      (a.search.findAllFrom n s).map (Match.between u w) := by
  induction n generalizing n' s with
  | zero => cases hn
  | succ n ih =>
    obtain ⟨n', rfl⟩ : ∃ k, n' = k + 1 := ⟨n' - 1, by omega⟩
    rw [findAllFrom_succ hreads, findAllFrom_succ hreads, findFrom_pads ha hu hw]
    cases hm : a.findFrom s with
    | none => rfl
    | some m =>
      have hlt := ends_lt hreads (isMatch_of_findIn hm).mem
      have hle := after_of_findIn hm
      exact congrArg (m.between u w :: ·) (ih (by omega) (by omega))

theorem findAll_pads (ha : Steady a) (hreads : a.reads = true) (hu : IsPad u) (hw : IsPad w)
    (t : List Char) : a.findAll (u ++ t ++ w) = (a.findAll t).map (Match.between u w) := by
  have hskip : a.findFrom (Place.start (u ++ t ++ w)) =
      a.findFrom (((Place.start t).trail w).indent u) := by
    rw [findFrom, Place.start_before, Place.start_after, List.append_assoc,
      findIn_skip ha.starts hu, List.append_nil]
    rfl
  rw [findAll, findAll, findAllFrom_succ hreads, hskip, ← findAllFrom_succ hreads]
  refine findAllFrom_pads ha hreads hu hw (Nat.lt_succ_self _) ?_
  simp only [Place.start_after, List.length_append]
  omega

/-! ## The beginning of the text -/

theorem find?_start (b : Pattern) (t : List Char) :
    (start ++ b).find? t = (start ++ b).matchAt (Place.start t) := by
  have hlater : ∀ (c : Char) (before r : List Char),
      (start ++ b).matchAt ⟨c :: before, r, []⟩ = none := by
    intro c before r
    rw [matchAt_eq_none_iff]
    rfl
  have hrest : ∀ (c : Char) (before r : List Char), (start ++ b).findIn (c :: before) r = none := by
    intro c before r
    induction r generalizing c before with
    | nil => rw [findIn_nil, hlater]
    | cons d r ih =>
      rw [findIn_cons, hlater, ih]
      rfl
  cases t with
  | nil => exact findIn_nil _ []
  | cons c r =>
    rw [find?, findIn_cons, hrest, Place.start]
    cases (start ++ b).matchAt ⟨[], c :: r, []⟩ <;> rfl

theorem ends_eq_nil_of_startsInked (h : a.startsInked = true)
    (hs : ∀ c ∈ s.after.head?, isBlank c = true) : a.ends s = [] :=
  matchAt_eq_none_iff.mp (matchAt_of_startsInked h hs)

/-- A match that allows for blanks at the beginning of a text goes on behind all of them. -/
theorem occursIn_anchored (h : b.startsInked = true) (hb : b.ignoresIndent = true) (t : List Char) :
    (start ++ (blanks ++ b)).occursIn t = !(b.ends (Place.start (trimLeft t))).isEmpty := by
  have hends : (start ++ (blanks ++ b)).ends (Place.start t) =
      (blanks.ends (Place.start t)).flatMap b.ends := List.append_nil _
  have hmem : ∀ v, v ∈ blanks.ends (Place.start t) ↔ ∃ p r, t = p ++ r ∧ IsPad p ∧
      v = (Place.start r).indent p := by
    intro v
    refine (mem_rounds_one t [] ' ' []).trans ?_
    simp only [Place.indent, Place.start, IsPad, List.append_nil, List.nil_append]
  have hindent : ∀ p, IsPad p → ∀ r, b.ends ((Place.start r).indent p) =
      (b.ends (Place.start r)).map (Place.indent p) := fun p hp r => ends_indent hp b hb _
  have hiff : (blanks.ends (Place.start t)).flatMap b.ends = [] ↔
      b.ends (Place.start (trimLeft t)) = [] := by
    rw [List.flatMap_eq_nil_iff]
    constructor
    · intro hnone
      have hthere := hnone _ ((hmem _).mpr
        ⟨t.takeWhile isBlank, trimLeft t, List.takeWhile_append_dropWhile.symm,
          isPad_takeWhile t, rfl⟩)
      rw [hindent _ (isPad_takeWhile t)] at hthere
      exact List.map_eq_nil_iff.mp hthere
    · intro hnone v hv
      obtain ⟨p, r, rfl, hp, rfl⟩ := (hmem v).mp hv
      rw [trimLeft_pad hp] at hnone
      rw [hindent p hp, List.map_eq_nil_iff]
      cases r with
      | nil => exact hnone
      | cons c r =>
        by_cases hc : isBlank c = true
        · refine ends_eq_nil_of_startsInked h ?_
          rintro d ⟨⟩
          exact hc
        · rwa [trimLeft_cons_of_not_blank r (by simpa using hc)] at hnone
  rw [← List.isEmpty_iff, ← List.isEmpty_iff, ← Bool.eq_iff_iff] at hiff
  rw [occursIn, find?_start, matchAt_eq, Option.isSome_map, hends, ← hiff]
  cases (blanks.ends (Place.start t)).flatMap b.ends <;> rfl

/-- Of such a match neither the blanks before nor those behind a text are seen. -/
theorem occursIn_anchored_pads (hb : Steady b) (hu : IsPad u) (hw : IsPad w) (t : List Char) :
    (start ++ (blanks ++ b)).occursIn (u ++ t ++ w) = (start ++ (blanks ++ b)).occursIn t := by
  obtain ⟨w', hw', hleft⟩ := trimLeft_append_pad hw t
  have htrail : Place.start (trimLeft t ++ w') = (Place.start (trimLeft t)).trail w' := rfl
  rw [occursIn_anchored hb.starts hb.ignores, occursIn_anchored hb.starts hb.ignores,
    List.append_assoc, trimLeft_pad hu, hleft, htrail, ends_trail hw' hb.loose hb.stays,
    List.isEmpty_map]

end Pattern

end NullAccess
