import NullAccess.Proofs.Pattern.Matches
import NullAccess.Proofs.Text.Padding

/-!
# Patterns in a text between blanks

Where blanks stand before or behind a text, most patterns match what they matched in the text alone.
Whether a pattern is such a one is read off its shape.  Before a text: it must not ask for the
beginning of the text, nor take a blank for what may not stand before it (`ignoresIndent`), and it
must not begin with a blank (`startsInked`).  Behind a text: of its ends in the longer text those
within the text are its ends in the text alone (`loose`), and it has no other (`stays`), because a
repetition that may run into the blanks is followed by a character that is none.

The statements these checks are for are `find?_pads` and `findAll_pads`: a search in the text
between blanks finds what a search in the text finds, moved by the blanks before it.
-/

namespace NullAccess

open Text

/-! ## Classes without blanks -/

/-- The blanks, one by one. -/
def Text.blankChars : List Char :=
  ([9, 10, 11, 12, 13, 28, 29, 30, 31, 32, 133, 160, 5760] ++ List.range' 8192 11 ++
    [8232, 8233, 8239, 8287, 12288]).map Char.ofNat

theorem Text.mem_blankChars {c : Char} (h : isBlank c = true) : c ∈ blankChars := by
  have hnat : c.toNat ∈ [9, 10, 11, 12, 13, 28, 29, 30, 31, 32, 133, 160, 5760] ++
      List.range' 8192 11 ++ [8232, 8233, 8239, 8287, 12288] := by
    simp [isBlank, isSpace] at h
    simp
    omega
  have hchar := List.mem_map_of_mem (f := Char.ofNat) hnat
  rwa [Char.ofNat_toNat] at hchar

/-- Whether no blank is in a class. -/
def Text.rejectsBlanks (p : Char → Bool) : Bool := blankChars.all fun c => !p c

theorem Text.eq_false_of_rejectsBlanks {p : Char → Bool} (hp : rejectsBlanks p = true) {c : Char}
    (hc : isBlank c = true) : p c = false := by
  simpa using List.all_eq_true.mp hp c (mem_blankChars hc)

theorem Text.not_blank_of_rejectsBlanks {p : Char → Bool} (hp : rejectsBlanks p = true) {c : Char}
    (hc : p c = true) : isBlank c = false := by
  cases hblank : isBlank c with
  | false => rfl
  | true =>
    rw [eq_false_of_rejectsBlanks hp hblank] at hc
    cases hc

theorem Text.isBlank_of_mem_blankChars {c : Char} (h : c ∈ blankChars) : isBlank c = true := by
  have hall : ∀ c ∈ blankChars, isBlank c = true := List.all_eq_true.mp rfl
  exact hall c h

theorem Text.rejectsBlanks_iff {p : Char → Bool} :
    rejectsBlanks p = true ↔ ∀ c, isBlank c = true → p c = false := by
  refine ⟨fun h c => eq_false_of_rejectsBlanks h, fun h => ?_⟩
  rw [rejectsBlanks, List.all_eq_true]
  intro c hc
  rw [h c (isBlank_of_mem_blankChars hc)]
  rfl

theorem Text.isWord_of_isBlank {c : Char} (hc : isBlank c = true) : isWord c = false :=
  eq_false_of_rejectsBlanks (by decide +kernel) hc

/-! ## Places in a text between blanks -/

namespace Place

variable (u w : List Char) (s : Place)

/-- The place with more before the text. -/
def indent : Place := { s with before := s.before ++ u.reverse }

/-- The place with more behind the text. -/
def trail : Place :=
  { s with
    after := s.after ++ w,
    groups := s.groups.map fun (n, opened, closed) => (n, opened ++ w, closed ++ w) }

theorem column_indent : (s.indent u).column = s.column + u.length := by
  simp [column, indent]

theorem group?_trail (n : Nat) : (s.trail w).group? n = s.group? n := by
  have htext : ∀ opened closed : List Char,
      (opened ++ w).take ((opened ++ w).length - (closed ++ w).length) =
        opened.take (opened.length - closed.length) := by
    intro opened closed
    rw [List.length_append, List.length_append, Nat.add_sub_add_right,
      List.take_append_of_le_length (Nat.sub_le _ _)]
  simp only [group?, trail, List.find?_map, Option.map_map]
  congr 1
  funext ⟨k, opened, closed⟩
  exact htext opened closed

theorem whole_pads : ((s.trail w).indent u).whole = u ++ s.whole ++ w := by
  simp [whole, trail, indent]

theorem length_after_trail : (s.trail w).after.length = s.after.length + w.length :=
  List.length_append

end Place

namespace Pattern

variable {a b : Pattern} {s t : Place} {u w : List Char} {step : Place → List Place}

theorem map_flatMap_of_comm {f g : Place → List Place} {h : Place → Place} {l l' : List Place}
    (hl : l' = l.map h) (hf : ∀ s, f (h s) = (g s).map h) :
    l'.flatMap f = (l.flatMap g).map h := by
  simp only [hl, List.flatMap_map, List.map_flatMap, hf]

/-! ## More before the text -/

/-- Whether the pattern does not see blanks before the text. -/
def ignoresIndent : Pattern → Bool
  | nothing => true
  | one _ => true
  | seq a b => a.ignoresIndent && b.ignoresIndent
  | alt a b => a.ignoresIndent && b.ignoresIndent
  | many a => a.ignoresIndent
  | few a => a.ignoresIndent
  | group _ a => a.ignoresIndent
  | stop => true
  | border wanted => wanted
  | ahead wanted a => !wanted && a.ignoresIndent
  | behind _ p => rejectsBlanks p
  | _ => false

theorem ends_edge (s : Place) : edge.ends s = if s.atBorder then [s] else [] := by
  have halone : s.isAlone = true → s.atBorder = false := by
    intro h
    simp only [Place.isAlone, Bool.and_eq_true, List.isEmpty_iff] at h
    simp [Place.atBorder, h.1, h.2]
  simp only [edge, ends]
  cases hborder : s.atBorder with
  | false => rfl
  | true =>
    cases hthere : s.isAlone with
    | false => rfl
    | true => cases hborder.symm.trans (halone hthere)

/-- The character before a place in an indented text is the one before it, or a blank. -/
theorem any_before_indent {p : Char → Bool} (hp : ∀ c, isBlank c = true → p c = false)
    (hu : IsPad u) (s : Place) : (s.indent u).before.head?.any p = s.before.head?.any p := by
  obtain ⟨before, after, groups⟩ := s
  cases before with
  | cons c r => rfl
  | nil =>
    show u.reverse.head?.any p = false
    cases hhead : u.reverse.head? with
    | none => rfl
    | some c => exact hp c (hu.reverse c (List.mem_of_mem_head? hhead))

theorem rounds_indent (hstep : ∀ s : Place, step (s.indent u) = (step s).map (Place.indent u))
    (left : List Char) (s : Place) :
    rounds step left (s.indent u) = (rounds step left s).map (Place.indent u) := by
  induction left generalizing s with
  | nil => rfl
  | cons c left ih =>
    rw [rounds, rounds, List.map_append, map_flatMap_of_comm (hstep s) fun t => ?_]
    · rfl
    · show (if further s t = true then _ else _) = _
      split
      · exact ih t
      · rfl

theorem roundsFew_indent (hstep : ∀ s : Place, step (s.indent u) = (step s).map (Place.indent u))
    (left : List Char) (s : Place) :
    roundsFew step left (s.indent u) = (roundsFew step left s).map (Place.indent u) := by
  induction left generalizing s with
  | nil => rfl
  | cons c left ih =>
    rw [roundsFew, roundsFew, List.map_cons, map_flatMap_of_comm (hstep s) fun t => ?_]
    show (if further s t = true then _ else _) = _
    split
    · exact ih t
    · rfl

theorem ends_indent (hu : IsPad u) (a : Pattern) (h : a.ignoresIndent = true) :
    ∀ s : Place, a.ends (s.indent u) = (a.ends s).map (Place.indent u) := by
  induction a with
  | nothing => exact fun s => rfl
  | one p =>
    intro s
    obtain ⟨before, after, groups⟩ := s
    cases after with
    | nil => rfl
    | cons c r => by_cases hp : p c = true <;> simp [ends, Place.indent, hp]
  | seq a b iha ihb =>
    obtain ⟨ha, hb⟩ := Bool.and_eq_true_iff.mp h
    exact fun s => map_flatMap_of_comm (iha ha s) (ihb hb)
  | alt a b iha ihb =>
    obtain ⟨ha, hb⟩ := Bool.and_eq_true_iff.mp h
    intro s
    rw [ends, ends, List.map_append, iha ha, ihb hb]
  | many a ih => exact fun s => rounds_indent (ih h) _ s
  | few a ih => exact fun s => roundsFew_indent (ih h) _ s
  | group n a ih =>
    intro s
    simp only [ends, ih h s, List.map_map]
    rfl
  | stop =>
    intro s
    simp only [ends, show (s.indent u).atStop = s.atStop from rfl]
    split <;> rfl
  | border wanted =>
    obtain rfl : wanted = true := h
    intro s
    have hborder : (s.indent u).atBorder = s.atBorder := by
      rw [Place.atBorder, Place.atBorder, any_before_indent (fun _ => isWord_of_isBlank) hu]
      rfl
    rw [← edge, ends_edge, ends_edge, hborder]
    split <;> rfl
  | ahead wanted a ih =>
    obtain ⟨hwanted, ha⟩ := Bool.and_eq_true_iff.mp h
    obtain rfl : wanted = false := by simpa using hwanted
    intro s
    simp only [ends, ih ha s, List.isEmpty_map]
    split <;> rfl
  | behind wanted p =>
    intro s
    simp only [ends, any_before_indent (fun c => eq_false_of_rejectsBlanks h) hu]
    split <;> rfl
  | start | times | upTo | upToFew | atomic | back | again | given => cases h

/-! ## More behind the text -/

/-- Whether every match of the pattern reads a character that is no blank. -/
def inked : Pattern → Bool
  | one p => rejectsBlanks p
  | seq a b => a.inked || b.inked
  | alt a b => a.inked && b.inked
  | group _ a => a.inked
  | _ => false

/-- Whether blanks behind the text only add ends among these blanks. -/
def loose : Pattern → Bool
  | nothing => true
  | one _ => true
  | seq a b => a.loose && b.loose
  | alt a b => a.loose && b.loose
  | many a => a.loose
  | few a => a.loose
  | group _ a => a.loose
  | start => true
  | border wanted => wanted
  | ahead false (one p) => rejectsBlanks p
  | behind _ _ => true
  | _ => false

/-- Whether no match from the text ends among blanks behind the text. -/
def stays : Pattern → Bool
  | nothing => true
  | one p => rejectsBlanks p
  | seq a b => (b.inked || a.stays) && b.stays
  | alt a b => a.stays && b.stays
  | many a => a.stays
  | few a => a.stays
  | group _ a => a.stays
  | start => true
  | border _ => true
  | ahead wanted _ => !wanted
  | behind _ _ => true
  | _ => false

theorem isPad_of_mem_ends (ht : t ∈ a.ends s) (hs : IsPad s.after) : IsPad t.after := by
  have hwhole := whole_of_mem_ends a s t ht
  have hle := ends_le a s t ht
  have hsuffix : t.after <:+ s.after := by
    refine List.suffix_of_suffix_length_le (List.suffix_append t.before.reverse t.after) ?_ hle
    rw [← Place.whole, hwhole]
    exact List.suffix_append s.before.reverse s.after
  exact fun c hc => hs c (hsuffix.subset hc)

theorem ends_of_inked (a : Pattern) (h : a.inked = true) :
    ∀ s : Place, IsPad s.after → a.ends s = [] := by
  induction a with
  | one p =>
    intro s hs
    obtain ⟨before, after, groups⟩ := s
    cases after with
    | nil => rfl
    | cons c r => simp [ends, eq_false_of_rejectsBlanks h (hs c List.mem_cons_self)]
  | seq a b iha ihb =>
    intro s hs
    rcases Bool.or_eq_true_iff.mp h with ha | hb
    · rw [ends, iha ha s hs]
      rfl
    · rw [ends, List.flatMap_eq_nil_iff]
      exact fun t ht => ihb hb t (isPad_of_mem_ends ht hs)
  | alt a b iha ihb =>
    obtain ⟨ha, hb⟩ := Bool.and_eq_true_iff.mp h
    intro s hs
    rw [ends, iha ha s hs, ihb hb s hs]
    rfl
  | group n a ih =>
    intro s hs
    rw [ends, ih h s hs]
    rfl
  | nothing | many | few | times | upTo | upToFew | atomic | start | stop | border | ahead | behind
  | back | again | given => cases h

/-- The place is in the text, or else among what stands behind it. -/
def inText (w : List Char) (t : Place) : Bool := w.length ≤ t.after.length

theorem inText_trail (t : Place) : inText w (t.trail w) = true := by
  simp [inText, Place.trail]

/-- Ends in the longer text lead on to ends of the text only if they are in the text themselves. -/
theorem filter_flatMap_of_comm {f g : Place → List Place} {l l' : List Place}
    (hl : l'.filter (inText w) = l.map (Place.trail w))
    (hout : ∀ t ∈ l', inText w t = false → (f t).filter (inText w) = [])
    (hin : ∀ t ∈ l, (f (t.trail w)).filter (inText w) = (g t).map (Place.trail w)) :
    (l'.flatMap f).filter (inText w) = (l.flatMap g).map (Place.trail w) := by
  have hskip : ∀ l' : List Place,
      (∀ t ∈ l', inText w t = false → (f t).filter (inText w) = []) →
      (l'.flatMap f).filter (inText w) =
        (l'.filter (inText w)).flatMap fun t => (f t).filter (inText w) := by
    intro l' hout
    induction l' with
    | nil => rfl
    | cons t rest ih =>
      obtain ⟨hhere, hrest⟩ := List.forall_mem_cons.mp hout
      rw [List.flatMap_cons, List.filter_append, ih hrest, List.filter_cons]
      cases htext : inText w t with
      | true => rfl
      | false => simp [hhere htext]
  rw [hskip l' hout, hl, List.flatMap_map, List.map_flatMap]
  clear hl
  induction l with
  | nil => rfl
  | cons t rest ih =>
    obtain ⟨hhere, hrest⟩ := List.forall_mem_cons.mp hin
    rw [List.flatMap_cons, List.flatMap_cons, hhere, ih hrest]

/-- What is read from behind the text stays behind it. -/
theorem filter_inText_of_le {l : List Place} (ht : inText w t = false)
    (hl : ∀ v ∈ l, v.after.length ≤ t.after.length) : l.filter (inText w) = [] := by
  rw [List.filter_eq_nil_iff]
  intro v hv hin
  have hle := hl v hv
  simp only [inText, decide_eq_true_eq, decide_eq_false_iff_not] at hin ht
  omega

theorem filter_here (s : Place) : [s.trail w].filter (inText w) = [s].map (Place.trail w) := by
  rw [List.filter_cons_of_pos (inText_trail s)]
  rfl

theorem further_trail (s t : Place) : further (s.trail w) (t.trail w) = further s t := by
  simp [further, Place.trail]

/-- What follows one round, where `f` goes on with further rounds: it stays behind the text, and in
the text it is the same with more behind the text. -/
theorem filter_round {f g : Place → List Place}
    (hle : ∀ t, ∀ v ∈ f t, v.after.length ≤ t.after.length)
    (hstep : (step (s.trail w)).filter (inText w) = (step s).map (Place.trail w))
    (hf : ∀ t, further s t = true → (f (t.trail w)).filter (inText w) = (g t).map (Place.trail w)) :
    ((step (s.trail w)).flatMap fun t => if further (s.trail w) t then f t else [t]).filter
        (inText w) =
      ((step s).flatMap fun t => if further s t then g t else [t]).map (Place.trail w) := by
  refine filter_flatMap_of_comm hstep (fun t _ hout => ?_) fun t _ => ?_
  · refine filter_inText_of_le hout fun v hv => ?_
    split at hv
    · exact hle t v hv
    · rw [List.mem_singleton.mp hv]
  · rw [further_trail]
    by_cases hfurther : further s t = true
    · rw [if_pos hfurther, if_pos hfurther, hf t hfurther]
    · rw [if_neg hfurther, if_neg hfurther, filter_here]

/-- Rounds of a step that looks at nothing behind the text, with enough rounds on both sides. -/
theorem rounds_trail (hle : ∀ s t, t ∈ step s → t.after.length ≤ s.after.length)
    (hstep : ∀ s : Place, (step (s.trail w)).filter (inText w) = (step s).map (Place.trail w))
    (left left' : List Char) (s : Place) (hleft : s.after.length < left.length)
    (hleft' : (s.trail w).after.length < left'.length) :
    (rounds step left' (s.trail w)).filter (inText w) =
      (rounds step left s).map (Place.trail w) := by
  induction left generalizing left' s with
  | nil => cases hleft
  | cons c left ih =>
    cases left' with
    | nil => cases hleft'
    | cons c' left' =>
      rw [rounds, rounds, List.filter_append, List.map_append, filter_here]
      congr 1
      refine filter_round (rounds_le hle left') (hstep s) fun t hfurther => ?_
      simp only [further, decide_eq_true_eq] at hfurther
      simp only [List.length_cons, Place.length_after_trail] at hleft hleft'
      exact ih left' t (by omega) (by rw [Place.length_after_trail]; omega)

theorem roundsFew_trail (hle : ∀ s t, t ∈ step s → t.after.length ≤ s.after.length)
    (hstep : ∀ s : Place, (step (s.trail w)).filter (inText w) = (step s).map (Place.trail w))
    (left left' : List Char) (s : Place) (hleft : s.after.length < left.length)
    (hleft' : (s.trail w).after.length < left'.length) :
    (roundsFew step left' (s.trail w)).filter (inText w) =
      (roundsFew step left s).map (Place.trail w) := by
  induction left generalizing left' s with
  | nil => cases hleft
  | cons c left ih =>
    cases left' with
    | nil => cases hleft'
    | cons c' left' =>
      rw [roundsFew, roundsFew, List.filter_cons_of_pos (inText_trail s), List.map_cons]
      congr 1
      refine filter_round (roundsFew_le hle left') (hstep s) fun t hfurther => ?_
      simp only [further, decide_eq_true_eq] at hfurther
      simp only [List.length_cons, Place.length_after_trail] at hleft hleft'
      exact ih left' t (by omega) (by rw [Place.length_after_trail]; omega)

/-- The character after a place in the longer text is the one after it, or a blank. -/
theorem any_after_trail {p : Char → Bool} (hp : ∀ c, isBlank c = true → p c = false)
    (hw : IsPad w) (s : Place) : (s.trail w).after.head?.any p = s.after.head?.any p := by
  obtain ⟨before, after, groups⟩ := s
  cases after with
  | cons c r => rfl
  | nil =>
    show w.head?.any p = false
    cases hhead : w.head? with
    | none => rfl
    | some c => exact hp c (hw c (List.mem_of_mem_head? hhead))

theorem isEmpty_ends_one (p : Char → Bool) (s : Place) :
    ((one p).ends s).isEmpty = !(s.after.head?.any p) := by
  obtain ⟨before, after, groups⟩ := s
  cases after with
  | nil => rfl
  | cons c r => by_cases hp : p c = true <;> simp [ends, hp]

theorem ends_loose (hw : IsPad w) (a : Pattern) (h : a.loose = true) :
    ∀ s : Place, (a.ends (s.trail w)).filter (inText w) = (a.ends s).map (Place.trail w) := by
  have hcheck : ∀ (s : Place) (c : Bool),
      (if c then [s.trail w] else []).filter (inText w) =
        (if c then [s] else []).map (Place.trail w) := by
    intro s c
    cases c with
    | true => exact filter_here s
    | false => rfl
  induction a with
  | nothing => exact filter_here
  | one p =>
    intro s
    obtain ⟨before, after, groups⟩ := s
    cases after with
    | nil =>
      rw [show (one p).ends ⟨before, [], groups⟩ = [] from rfl, List.map_nil,
        List.filter_eq_nil_iff]
      -- A character is read from what stands behind the text.
      intro t ht hin
      obtain ⟨c, r, hafter, -, rfl⟩ := mem_ends_one.mp ht
      have hw : w = c :: r := hafter
      simp only [inText, hw, List.length_cons, decide_eq_true_eq] at hin
      omega
    | cons c r => by_cases hp : p c = true <;> simp [ends, Place.trail, hp, inText]
  | seq a b iha ihb =>
    obtain ⟨ha, hb⟩ := Bool.and_eq_true_iff.mp h
    intro s
    refine filter_flatMap_of_comm (iha ha s) (fun t _ hout => ?_) fun t _ => ihb hb t
    exact filter_inText_of_le hout (ends_le b t)
  | alt a b iha ihb =>
    obtain ⟨ha, hb⟩ := Bool.and_eq_true_iff.mp h
    intro s
    rw [ends, ends, List.filter_append, List.map_append, iha ha, ihb hb]
  | many a ih =>
    exact fun s => rounds_trail (ends_le a) (ih h) _ _ s (Nat.lt_succ_self _) (Nat.lt_succ_self _)
  | few a ih =>
    exact fun s =>
      roundsFew_trail (ends_le a) (ih h) _ _ s (Nat.lt_succ_self _) (Nat.lt_succ_self _)
  | group n a ih =>
    intro s
    simp only [ends, List.filter_map, List.map_map]
    have hsame : inText w ∘ (fun t : Place => { t with
        groups := (n, (s.trail w).after, t.after) :: t.groups }) = inText w := rfl
    rw [hsame, ih h s, List.map_map]
    rfl
  | start => exact fun s => hcheck s s.before.isEmpty
  | border wanted =>
    obtain rfl : wanted = true := h
    intro s
    have hborder : (s.trail w).atBorder = s.atBorder := by
      rw [Place.atBorder, Place.atBorder, any_after_trail (fun _ => isWord_of_isBlank) hw]
      rfl
    rw [← edge, ends_edge, ends_edge, hborder]
    exact hcheck s s.atBorder
  | ahead wanted a ih =>
    cases wanted with
    | true => cases h
    | false =>
      cases a with
      | one p =>
        intro s
        have hsame : ((one p).ends (s.trail w)).isEmpty = ((one p).ends s).isEmpty := by
          rw [isEmpty_ends_one, isEmpty_ends_one,
            any_after_trail (fun c => eq_false_of_rejectsBlanks h) hw]
        change List.filter _ (if ((one p).ends (s.trail w)).isEmpty then _ else _) = _
        rw [hsame]
        exact hcheck s _
      | _ => cases h
  | behind wanted p => exact fun s => hcheck s _
  | stop | times | upTo | upToFew | atomic | back | again | given => cases h

/-! ### Ends that stay in the text -/

theorem exists_trail_of_inText (hw : IsPad w) (h : a.loose = true) (ht : t ∈ a.ends (s.trail w))
    (hin : inText w t = true) : ∃ t' ∈ a.ends s, t = t'.trail w := by
  have hmem : t ∈ (a.ends (s.trail w)).filter (inText w) := List.mem_filter.mpr ⟨ht, hin⟩
  rw [ends_loose hw a h] at hmem
  obtain ⟨t', ht', rfl⟩ := List.mem_map.mp hmem
  exact ⟨t', ht', rfl⟩

/-- Behind the text there are only blanks. -/
theorem isPad_of_not_inText (hw : IsPad w) (ht : t ∈ a.ends (s.trail w))
    (hout : inText w t = false) : IsPad t.after := by
  have hafter : t.after <:+ (s.trail w).whole := by
    rw [← whole_of_mem_ends a _ _ ht]
    exact List.suffix_append t.before.reverse t.after
  have htrail : w <:+ (s.trail w).whole := ⟨s.before.reverse ++ s.after, List.append_assoc _ _ _⟩
  have hsuffix : t.after <:+ w := by
    refine List.suffix_of_suffix_length_le hafter htrail ?_
    simp only [inText, decide_eq_false_iff_not] at hout
    omega
  exact fun c hc => hw c (hsuffix.subset hc)

theorem inText_rounds (hstep : ∀ s : Place, ∀ t ∈ step (s.trail w), ∃ t', t = Place.trail w t')
    (left : List Char) (s : Place) : ∀ t ∈ rounds step left (s.trail w), inText w t = true := by
  induction left generalizing s with
  | nil =>
    intro t ht
    rw [List.mem_singleton.mp ht, inText_trail]
  | cons c left ih =>
    intro t ht
    rcases List.mem_append.mp ht with hmore | hlast
    · obtain ⟨v, hv, ht⟩ := List.mem_flatMap.mp hmore
      obtain ⟨v', rfl⟩ := hstep s v hv
      split at ht
      · exact ih v' t ht
      · rw [List.mem_singleton.mp ht, inText_trail]
    · rw [List.mem_singleton.mp hlast, inText_trail]

theorem inText_roundsFew (hstep : ∀ s : Place, ∀ t ∈ step (s.trail w), ∃ t', t = Place.trail w t')
    (left : List Char) (s : Place) : ∀ t ∈ roundsFew step left (s.trail w), inText w t = true := by
  induction left generalizing s with
  | nil =>
    intro t ht
    rw [List.mem_singleton.mp ht, inText_trail]
  | cons c left ih =>
    intro t ht
    rcases List.mem_cons.mp ht with rfl | hmore
    · exact inText_trail s
    · obtain ⟨v, hv, ht⟩ := List.mem_flatMap.mp hmore
      obtain ⟨v', rfl⟩ := hstep s v hv
      split at ht
      · exact ih v' t ht
      · rw [List.mem_singleton.mp ht, inText_trail]

theorem inText_of_stays (hw : IsPad w) (a : Pattern) (hl : a.loose = true) (h : a.stays = true) :
    ∀ s : Place, ∀ t ∈ a.ends (s.trail w), inText w t = true := by
  have hcheck : ∀ (s : Place) (c : Bool), ∀ t ∈ (if c then [s.trail w] else []),
      inText w t = true := by
    intro s c t ht
    cases c with
    | true => rw [List.mem_singleton.mp ht, inText_trail]
    | false => cases ht
  induction a with
  | nothing =>
    intro s t ht
    rw [List.mem_singleton.mp ht, inText_trail]
  | one p =>
    intro s t ht
    obtain ⟨c, r, hafter, hp, rfl⟩ := mem_ends_one.mp ht
    obtain ⟨before, after, groups⟩ := s
    cases after with
    | nil =>
      have hc : isBlank c = true := hw c ((show w = c :: r from hafter) ▸ List.mem_cons_self)
      rw [eq_false_of_rejectsBlanks h hc] at hp
      cases hp
    | cons d r' =>
      obtain ⟨-, rfl⟩ := List.cons.inj (show d :: (r' ++ w) = c :: r from hafter)
      simp [inText]
  | seq a b iha ihb =>
    obtain ⟨hla, hlb⟩ := Bool.and_eq_true_iff.mp hl
    obtain ⟨ha, hb⟩ := Bool.and_eq_true_iff.mp h
    intro s t ht
    obtain ⟨v, hv, ht⟩ := List.mem_flatMap.mp ht
    -- The first part ends in the text, or behind it, where a second part that needs ink has no end.
    cases hin : inText w v with
    | true =>
      obtain ⟨v', -, rfl⟩ := exists_trail_of_inText hw hla hv hin
      exact ihb hlb hb v' t ht
    | false =>
      rcases Bool.or_eq_true_iff.mp ha with hinked | hstays
      · rw [ends_of_inked b hinked v (isPad_of_not_inText hw hv hin)] at ht
        cases ht
      · rw [iha hla hstays s v hv] at hin
        cases hin
  | alt a b iha ihb =>
    obtain ⟨hla, hlb⟩ := Bool.and_eq_true_iff.mp hl
    obtain ⟨ha, hb⟩ := Bool.and_eq_true_iff.mp h
    intro s t ht
    rcases List.mem_append.mp ht with ht | ht
    · exact iha hla ha s t ht
    · exact ihb hlb hb s t ht
  | many a ih =>
    refine fun s => inText_rounds (fun s t ht => ?_) _ s
    obtain ⟨t', -, rfl⟩ := exists_trail_of_inText hw (a := a) hl ht (ih hl h s t ht)
    exact ⟨t', rfl⟩
  | few a ih =>
    refine fun s => inText_roundsFew (fun s t ht => ?_) _ s
    obtain ⟨t', -, rfl⟩ := exists_trail_of_inText hw (a := a) hl ht (ih hl h s t ht)
    exact ⟨t', rfl⟩
  | group n a ih =>
    intro s t ht
    obtain ⟨v, hv, rfl⟩ := List.mem_map.mp ht
    exact ih hl h s v hv
  | start => exact fun s => hcheck s _
  | border wanted => exact fun s => hcheck s _
  | ahead wanted a _ =>
    cases wanted with
    | true => cases h
    | false =>
      intro s t ht
      rw [ends] at ht
      exact hcheck s _ t ht
  | behind wanted p => exact fun s => hcheck s _
  | stop | times | upTo | upToFew | atomic | back | again | given => cases h

theorem ends_trail (hw : IsPad w) (hl : a.loose = true) (h : a.stays = true) (s : Place) :
    a.ends (s.trail w) = (a.ends s).map (Place.trail w) := by
  rw [← ends_loose hw a hl]
  exact (List.filter_eq_self.mpr (inText_of_stays hw a hl h s)).symm

end Pattern

end NullAccess
