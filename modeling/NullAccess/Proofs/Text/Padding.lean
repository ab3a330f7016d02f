import Mathlib.Data.List.TakeWhile
import Mathlib.Tactic.Conv
import NullAccess.Text.Lines

/-!
# Blanks around a text

Every text is its trimmed self between two stretches of blanks (`exists_pads`), and trimming does
not see such stretches (`trim_pads`).  So a reading of lines that comes to the same for a line and
for that line between blanks comes to the same for all lines that are equal when trimmed.  The
readings of plain text are gone through here: the search for a word, and the squeezing of many lines
into one.
-/

namespace NullAccess.Text

/-- A stretch of blanks. -/
def IsPad (u : List Char) : Prop := ∀ c ∈ u, isBlank c = true

/-- A text with characters, none of them a blank. -/
structure IsInk (t : List Char) : Prop where
  ne_nil : t ≠ []
  not_blank : ∀ c ∈ t, isBlank c = false

variable {u w : List Char}

theorem isPad_nil : IsPad [] := nofun

theorem isPad_blank : IsPad [' '] := by
  intro c hc
  rw [List.mem_singleton.mp hc]
  rfl

theorem not_blank_of_all {t : List Char} (h : t.all (fun c => !isBlank c) = true) :
    ∀ c ∈ t, isBlank c = false := by
  simpa using h

theorem IsPad.reverse (hu : IsPad u) : IsPad u.reverse :=
  fun c hc => hu c (List.mem_reverse.mp hc)

theorem isPad_takeWhile (t : List Char) : IsPad (t.takeWhile isBlank) :=
  fun _ hc => List.mem_takeWhile_imp hc

/-! ## Trimming -/

theorem trimLeft_pad (hu : IsPad u) (t : List Char) : trimLeft (u ++ t) = trimLeft t :=
  List.dropWhile_append_of_pos hu

theorem trimRight_pad (hw : IsPad w) (t : List Char) : trimRight (t ++ w) = trimRight t := by
  rw [trimRight, trimRight, dropEndWhile, dropEndWhile, List.reverse_append,
    List.dropWhile_append_of_pos hw.reverse]

theorem trimLeft_append_pad (hw : IsPad w) (t : List Char) :
    ∃ w', IsPad w' ∧ trimLeft (t ++ w) = trimLeft t ++ w' := by
  induction t with
  | nil =>
    refine ⟨[], isPad_nil, ?_⟩
    have h := trimLeft_pad hw []
    rwa [List.append_nil] at h
  | cons c r ih =>
    by_cases hc : isBlank c = true
    · rw [List.cons_append, trimLeft_cons_of_blank _ hc, trimLeft_cons_of_blank _ hc]
      exact ih
    · have hc' : isBlank c = false := by simpa using hc
      rw [List.cons_append, trimLeft_cons_of_not_blank _ hc', trimLeft_cons_of_not_blank _ hc']
      exact ⟨w, hw, rfl⟩

theorem trim_pads (hu : IsPad u) (hw : IsPad w) (t : List Char) : trim (u ++ t ++ w) = trim t := by
  obtain ⟨w', hw', h⟩ := trimLeft_append_pad hw t
  rw [trim, List.append_assoc, trimLeft_pad hu, h, trimRight_pad hw', trim]

theorem trim_of_isPad (hw : IsPad w) : trim w = [] := by
  have h := trim_pads hw isPad_nil []
  rwa [List.append_nil, List.append_nil] at h

/-- The blanks before a text. -/
def margin (t : List Char) : List Char := t.takeWhile isBlank

theorem isPad_margin (t : List Char) : IsPad (margin t) := isPad_takeWhile t

theorem exists_margin (t : List Char) : ∃ w, IsPad w ∧ t = margin t ++ trim t ++ w := by
  have hleft : margin t ++ trimLeft t = t := List.takeWhile_append_dropWhile
  have hright : trim t ++ ((trimLeft t).reverse.takeWhile isBlank).reverse = trimLeft t := by
    rw [trim, trimRight, dropEndWhile, ← List.reverse_append, List.takeWhile_append_dropWhile,
      List.reverse_reverse]
  refine ⟨_, (isPad_takeWhile (trimLeft t).reverse).reverse, ?_⟩
  rw [List.append_assoc, hright, hleft]

theorem exists_pads (t : List Char) : ∃ u w, IsPad u ∧ IsPad w ∧ t = u ++ trim t ++ w := by
  obtain ⟨w, hw, ht⟩ := exists_margin t
  exact ⟨margin t, w, isPad_margin t, hw, ht⟩

/-- A reading that does not see the blanks around a text reads the trimmed text. -/
theorem eq_of_pads {α : Type} {f : List Char → α}
    (hf : ∀ {u w}, IsPad u → IsPad w → ∀ t, f (u ++ t ++ w) = f t) (t : List Char) :
    f (trim t) = f t := by
  obtain ⟨u, w, hu, hw, ht⟩ := exists_pads t
  conv_rhs => rw [ht, hf hu hw]

theorem trim_trim (t : List Char) : trim (trim t) = trim t := eq_of_pads trim_pads t

/-! ## What trimming leaves -/

section

variable {t w x : List Char}

theorem mem_of_mem_trimRight {c : Char} (h : c ∈ trimRight t) : c ∈ t := by
  rw [trimRight, dropEndWhile, List.mem_reverse] at h
  exact List.mem_reverse.mp ((List.dropWhile_suffix _).subset h)

theorem trimRight_of_isPad (hw : IsPad w) : trimRight w = [] := by
  have h := trimRight_pad hw []
  rwa [List.nil_append] at h

theorem trimRight_append (hx : ∀ c ∈ x.getLast?, isBlank c = false) (t : List Char) :
    trimRight (x ++ t) = x ++ trimRight t := by
  have hkept : x.reverse.dropWhile isBlank = x.reverse := by
    rw [← List.head?_reverse] at hx
    cases hrev : x.reverse with
    | nil => rfl
    | cons c r =>
      rw [hrev] at hx
      exact trimLeft_cons_of_not_blank r (hx c rfl)
  rw [trimRight, dropEndWhile, List.reverse_append, List.dropWhile_append, hkept]
  cases hrest : t.reverse.dropWhile isBlank with
  | nil => simp [trimRight, dropEndWhile, hrest]
  | cons c r => simp [trimRight, dropEndWhile, hrest]

theorem trimRight_of_last (hx : ∀ c ∈ x.getLast?, isBlank c = false) : trimRight x = x := by
  have h := trimRight_append hx []
  rw [List.append_nil] at h
  rw [h]
  exact List.append_nil x

theorem trim_append (hne : x ≠ []) (hfirst : ∀ c ∈ x.head?, isBlank c = false)
    (hlast : ∀ c ∈ x.getLast?, isBlank c = false) (t : List Char) :
    trim (x ++ t) = x ++ trimRight t := by
  obtain ⟨c, r, rfl⟩ := List.exists_cons_of_ne_nil hne
  rw [trim, List.cons_append, trimLeft_cons_of_not_blank _ (hfirst c rfl), ← List.cons_append,
    trimRight_append hlast]

theorem trim_of_ends_inked (hne : x ≠ []) (hfirst : ∀ c ∈ x.head?, isBlank c = false)
    (hlast : ∀ c ∈ x.getLast?, isBlank c = false) : trim x = x := by
  have h := trim_append hne hfirst hlast []
  rw [List.append_nil] at h
  rw [h]
  exact List.append_nil x

theorem not_blank_of_mem_getLast?_trim : ∀ c ∈ (trim t).getLast?, isBlank c = false := by
  intro c hc
  have h := List.head?_dropWhile_not isBlank (trimLeft t).reverse
  rw [trim, trimRight, dropEndWhile, List.getLast?_reverse, Option.mem_def] at hc
  rw [hc] at h
  exact h

theorem not_blank_of_mem_head?_trim : ∀ c ∈ (trim t).head?, isBlank c = false := by
  intro c hc
  have h := List.head?_dropWhile_not isBlank t
  have hkept : trim t <+: trimLeft t := by
    rw [trim, trimRight, dropEndWhile, ← List.reverse_suffix, List.reverse_reverse]
    exact List.dropWhile_suffix _
  obtain ⟨w, hw⟩ := hkept
  rw [← trimLeft, ← hw] at h
  cases htrim : trim t with
  | nil =>
    rw [htrim] at hc
    cases hc
  | cons d r =>
    rw [htrim] at h hc
    cases hc
    exact h

end

/-! ## Words -/

theorem holds_pad {part : List Char} (hne : part ≠ []) (hpart : ∀ c ∈ part, isBlank c = false)
    (hu : IsPad u) (t : List Char) : holds part (u ++ t) = holds part t := by
  induction u with
  | nil => rfl
  | cons c u ih =>
    obtain ⟨hc, hu⟩ := List.forall_mem_cons.mp hu
    obtain ⟨d, rest, rfl⟩ := List.exists_cons_of_ne_nil hne
    have hd : isBlank d = false := hpart d List.mem_cons_self
    have hdc : (d == c) = false := by
      by_cases h : d = c
      · rw [h, hc] at hd
        cases hd
      · simpa using h
    rw [List.cons_append, holds, ih hu, List.isPrefixOf, hdc, Bool.false_and, Bool.false_or]

theorem prefix_append_pad {part t : List Char} (hpart : ∀ c ∈ part, isBlank c = false)
    (hw : IsPad w) : part <+: t ++ w ↔ part <+: t := by
  refine ⟨fun h => ?_, fun h => h.trans (List.prefix_append t w)⟩
  rcases List.prefix_or_prefix_of_prefix h (List.prefix_append t w) with hshort | hlong
  · exact hshort
  · -- A longer part would end in blanks.
    obtain ⟨more, rfl⟩ := hlong
    cases more with
    | nil => simp
    | cons c more =>
      have hmore : c :: more <+: w := (List.prefix_append_right_inj t).mp h
      have hblank := hw c (hmore.subset List.mem_cons_self)
      rw [hpart c (List.mem_append_right t List.mem_cons_self)] at hblank
      cases hblank

theorem holds_append_pad {part : List Char} (hne : part ≠ [])
    (hpart : ∀ c ∈ part, isBlank c = false) (hw : IsPad w) (t : List Char) :
    holds part (t ++ w) = holds part t := by
  induction t with
  | nil =>
    have h := holds_pad hne hpart hw []
    rwa [List.append_nil] at h
  | cons c r ih =>
    have hhere : part.isPrefixOf (c :: r ++ w) = part.isPrefixOf (c :: r) := by
      rw [Bool.eq_iff_iff, List.isPrefixOf_iff_prefix, List.isPrefixOf_iff_prefix,
        prefix_append_pad hpart hw]
    rw [List.cons_append, holds, holds, ih, ← List.cons_append, hhere]

theorem holds_trim {part : List Char} (hne : part ≠ []) (hpart : ∀ c ∈ part, isBlank c = false)
    (t : List Char) : holds part (trim t) = holds part t :=
  eq_of_pads (fun hu hw t => by
    rw [List.append_assoc, holds_pad hne hpart hu, holds_append_pad hne hpart hw]) t

/-! ## Many lines in one -/

theorem squeezeFrom_true_pad (hu : IsPad u) (t : List Char) :
    squeezeFrom true (u ++ t) = squeezeFrom true t := by
  induction u with
  | nil => rfl
  | cons c u ih =>
    obtain ⟨hc, hu⟩ := List.forall_mem_cons.mp hu
    rw [List.cons_append, squeezeFrom, if_pos hc, if_pos rfl, ih hu]

/-- What is written of a text does not depend on what follows it, and only its last character
matters for what follows. -/
theorem squeezeFrom_append (gap : Bool) (t t' : List Char) :
    squeezeFrom gap (t ++ t') =
      squeezeFrom gap t ++ squeezeFrom (t.foldl (fun _ c => isBlank c) gap) t' := by
  induction t generalizing gap with
  | nil => rfl
  | cons c r ih =>
    rw [List.cons_append, squeezeFrom, squeezeFrom, List.foldl_cons, ih true, ih false]
    by_cases hc : isBlank c = true <;> cases gap <;> simp [hc]

theorem isPad_squeezeFrom (hw : IsPad w) (gap : Bool) : IsPad (squeezeFrom gap w) := by
  have hrest : ∀ r, IsPad r → squeezeFrom true r = [] := by
    intro r hr
    have h := squeezeFrom_true_pad hr []
    rwa [List.append_nil] at h
  cases w with
  | nil => exact isPad_nil
  | cons c r =>
    obtain ⟨hc, hr⟩ := List.forall_mem_cons.mp hw
    rw [squeezeFrom, if_pos hc, hrest r hr]
    cases gap <;> intro d hd <;> simp at hd
    rw [hd]
    rfl

theorem squeezeFrom_pad_cons (hw : IsPad w) {c : Char} (hc : isBlank c = true) (gap : Bool)
    (t : List Char) : squeezeFrom gap (w ++ c :: t) = squeezeFrom gap (c :: t) := by
  cases w with
  | nil => rfl
  | cons d r =>
    obtain ⟨hd, hr⟩ := List.forall_mem_cons.mp hw
    have hrest : squeezeFrom true (r ++ c :: t) = squeezeFrom true t := by
      rw [squeezeFrom_true_pad hr, squeezeFrom, if_pos hc, if_pos rfl]
    rw [List.cons_append, squeezeFrom, squeezeFrom, if_pos hd, if_pos hc, hrest]

theorem squeeze_eq (t : List Char) : squeeze t = trim (squeezeFrom true t) := by
  cases t with
  | nil => rfl
  | cons c r =>
    by_cases hc : isBlank c = true
    · have hspace : IsPad [' '] := by
        intro d hd
        rw [List.mem_singleton.mp hd]
        rfl
      have h := trim_pads hspace isPad_nil (squeezeFrom true r)
      simpa [squeeze, squeezeFrom, hc] using h
    · simp [squeeze, squeezeFrom, hc]

/-- Written behind a gap, lines and their trimmed selves differ at most in blanks at the very
end. -/
theorem squeezeFrom_joinWith_trim (lines : List (List Char)) :
    ∃ p, IsPad p ∧ squeezeFrom true (joinWith ['\n'] lines) =
      squeezeFrom true (joinWith ['\n'] (lines.map trim)) ++ p := by
  induction lines with
  | nil => exact ⟨[], isPad_nil, rfl⟩
  | cons l rest ih =>
    obtain ⟨u, w, hu, hw, hl⟩ := exists_pads l
    cases rest with
    | nil =>
      refine ⟨_, isPad_squeezeFrom hw ((trim l).foldl (fun _ c => isBlank c) true), ?_⟩
      simp only [joinWith, List.map_cons, List.map_nil]
      rw [← squeezeFrom_append]
      conv_lhs => rw [hl, List.append_assoc, squeezeFrom_true_pad hu]
    | cons l' rest =>
      obtain ⟨p, hp, hrest⟩ := ih
      have hnext : ∀ gap t, squeezeFrom gap ('\n' :: t) =
          squeezeFrom gap ['\n'] ++ squeezeFrom true t :=
            fun gap t => squeezeFrom_append gap ['\n'] t
      refine ⟨p, hp, ?_⟩
      simp only [List.map_cons] at hrest
      simp only [joinWith, List.map_cons, List.append_assoc, List.singleton_append]
      conv_lhs =>
        rw [hl, List.append_assoc, List.append_assoc, squeezeFrom_true_pad hu, squeezeFrom_append,
          squeezeFrom_pad_cons hw rfl, hnext, hrest]
      rw [squeezeFrom_append,
        hnext _ (joinWith ['\n'] (trim l' :: rest.map trim)), List.append_assoc, List.append_assoc]

theorem squeeze_joinWith_trim (lines : List (List Char)) :
    squeeze (joinWith ['\n'] (lines.map trim)) = squeeze (joinWith ['\n'] lines) := by
  obtain ⟨p, hp, h⟩ := squeezeFrom_joinWith_trim lines
  have htrim := trim_pads isPad_nil hp (squeezeFrom true (joinWith ['\n'] (lines.map trim)))
  rw [List.nil_append] at htrim
  rw [squeeze_eq, squeeze_eq, h, htrim]

/-! ## Lines of a source -/

theorem mem_of_mem_splitOn {sep c : Char} {t l : List Char} (hl : l ∈ splitOn sep t) (hc : c ∈ l) :
    c ∈ t := by
  induction t generalizing l with
  | nil =>
    rw [List.mem_singleton.mp hl] at hc
    exact hc
  | cons d r ih =>
    obtain ⟨first, rest, hsplit⟩ := List.exists_cons_of_ne_nil (splitOn_ne_nil sep r)
    by_cases hd : d = sep
    · simp only [splitOn, if_pos hd, List.mem_cons] at hl
      rcases hl with rfl | hl
      · cases hc
      · exact List.mem_cons_of_mem d (ih hl hc)
    · simp only [splitOn, if_neg hd, hsplit, List.mem_cons] at hl
      rw [hsplit] at ih
      rcases hl with rfl | hl
      · rcases List.mem_cons.mp hc with rfl | hc
        · exact List.mem_cons_self
        · exact List.mem_cons_of_mem d (ih List.mem_cons_self hc)
      · exact List.mem_cons_of_mem d (ih (List.mem_cons_of_mem first hl) hc)

theorem sep_not_mem_of_mem_splitOn {sep : Char} {t l : List Char} (hl : l ∈ splitOn sep t) :
    sep ∉ l := by
  induction t generalizing l with
  | nil =>
    rw [List.mem_singleton.mp hl]
    exact List.not_mem_nil
  | cons c r ih =>
    obtain ⟨first, rest, hsplit⟩ := List.exists_cons_of_ne_nil (splitOn_ne_nil sep r)
    by_cases hc : c = sep
    · simp only [splitOn, if_pos hc, List.mem_cons] at hl
      rcases hl with rfl | hl
      · exact List.not_mem_nil
      · exact ih hl
    · simp only [splitOn, if_neg hc, hsplit, List.mem_cons] at hl
      rw [hsplit] at ih
      rcases hl with rfl | hl
      · intro hmem
        rcases List.mem_cons.mp hmem with h | h
        · exact hc h.symm
        · exact ih List.mem_cons_self h
      · exact ih (List.mem_cons_of_mem first hl)

theorem splitOn_of_not_mem {sep : Char} {t : List Char} (h : sep ∉ t) : splitOn sep t = [t] := by
  induction t with
  | nil => rfl
  | cons c r ih =>
    have hc : c ≠ sep := fun heq => h (heq ▸ List.mem_cons_self)
    rw [splitOn, if_neg hc, ih fun hr => h (List.mem_cons_of_mem c hr)]

theorem splitOn_append (sep : Char) (t r : List Char) :
    splitOn sep (t ++ sep :: r) = splitOn sep t ++ splitOn sep r := by
  induction t with
  | nil => simp [splitOn]
  | cons c t ih =>
    obtain ⟨first, rest, hsplit⟩ := List.exists_cons_of_ne_nil (splitOn_ne_nil sep t)
    by_cases hc : c = sep
    · simp [splitOn, hc, ih]
    · rw [List.cons_append, splitOn, splitOn, if_neg hc, if_neg hc, ih, hsplit]
      rfl

theorem mem_of_mem_dropEmptyLast {lines : List Line} {l : Line} (h : l ∈ dropEmptyLast lines) :
    l ∈ lines := by
  fun_induction dropEmptyLast lines with
  | case1 => exact h
  | case2 => cases h
  | case3 => exact h
  | case4 l' rest _ ih =>
    rcases List.mem_cons.mp h with rfl | h
    · exact List.mem_cons_self
    · exact List.mem_cons_of_mem l' (ih h)

theorem lf_not_mem_of_mem_sourceLines {t : List Char} {l : Line} (h : l ∈ sourceLines t) :
    '\n' ∉ l :=
  sep_not_mem_of_mem_splitOn (mem_of_mem_dropEmptyLast h)

end NullAccess.Text
