import Mathlib.Data.List.Infix
import NullAccess.Json.Reader

/-!
# Confined and unconfined readings

A confined reading gives what the unconfined one gives, unless the text has too much of something:
more opening brackets than there is room for, or a longer run of digits than a number may have
(`parseFile_tallies`).  Every reader leaves a suffix of its text unread, so what it meets there in
excess is also in the text it began with.
-/

namespace NullAccess.Json

/-- How many brackets a text opens, inside its strings too. -/
def openings (t : List Char) : Nat := t.countP fun c => c == '[' || c == '{'

/-- What a text has too much of for a confined reading. -/
inductive Excess (room : Nat) (t : List Char) : Flaw → Prop where
  | brackets (h : room < openings t) : Excess room t .tooDeep
  | digits {ds : List Char} (hpart : ds <:+: t) (hdigits : ∀ c ∈ ds, c.isDigit = true)
      (h : Text.maxDigits < ds.length) : Excess room t .longNumeral

/-- The confined reading of a text beside the unconfined one. -/
inductive Tallies {α : Type} (room : Nat) (t : List Char) :
    (confined free : Except Flaw (α × List Char)) → Prop where
  | ok (a : α) {rest : List Char} (h : rest <:+ t) : Tallies room t (.ok (a, rest)) (.ok (a, rest))
  | malformed : Tallies room t (.error .malformed) (.error .malformed)
  | excess {flaw : Flaw} {free : Except Flaw (α × List Char)} (h : Excess room t flaw) :
      Tallies room t (.error flaw) free

section

variable {α β : Type} {room room' : Nat} {t t' : List Char}

theorem Excess.mono {flaw : Flaw} (h : Excess room' t' flaw) (hpart : t' <:+ t)
    (hroom : room + openings t' ≤ room' + openings t) : Excess room t flaw := by
  cases h with
  | brackets h => exact .brackets (by omega)
  | digits hds hdigits h => exact .digits (hds.trans hpart.isInfix) hdigits h

theorem openings_le_of_suffix (h : t' <:+ t) : openings t' ≤ openings t :=
  h.sublist.countP_le

theorem Excess.of_suffix {flaw : Flaw} (h : Excess room t' flaw) (hpart : t' <:+ t) :
    Excess room t flaw := by
  have hle := openings_le_of_suffix hpart
  exact h.mono hpart (by omega)

theorem Tallies.mono {x y : Except Flaw (α × List Char)}
    (h : Tallies room' t' x y) (hpart : t' <:+ t)
    (hroom : room + openings t' ≤ room' + openings t) : Tallies room t x y := by
  cases h with
  | ok a hrest => exact .ok a (hrest.trans hpart)
  | malformed => exact .malformed
  | excess h => exact .excess (h.mono hpart hroom)

theorem Tallies.of_suffix {x y : Except Flaw (α × List Char)} (h : Tallies room t' x y)
    (hpart : t' <:+ t) : Tallies room t x y := by
  have hle := openings_le_of_suffix hpart
  exact h.mono hpart (by omega)

theorem Tallies.map (f : α → β) {x y : Except Flaw (α × List Char)} (h : Tallies room t x y) :
    Tallies room t (x.map fun (a, rest) => (f a, rest)) (y.map fun (a, rest) => (f a, rest)) := by
  cases h with
  | ok a hrest => exact .ok (f a) hrest
  | malformed => exact .malformed
  | excess h => exact .excess h

end

/-! ## What the readers leave -/

theorem skip_suffix (t : List Char) : skip t <:+ t := List.dropWhile_suffix isSpace

theorem suffix_of_skip {t r : List Char} {c : Char} (h : skip t = c :: r) : r <:+ t := by
  have hskip := skip_suffix t
  rw [h] at hskip
  exact (List.suffix_cons c r).trans hskip

theorem suffix_of_readHex4 {t rest : List Char} {n : Nat} (h : readHex4 t = some (n, rest)) :
    rest <:+ t := by
  unfold readHex4 at h
  split at h
  · rename_i a b c d r
    simp only [Option.bind_eq_bind, Option.bind_eq_some_iff, Option.some.injEq, Prod.mk.injEq] at h
    obtain ⟨_, -, _, -, _, -, _, -, -, rfl⟩ := h
    exact ⟨[a, b, c, d], rfl⟩
  · cases h

theorem suffix_of_readUnicode {t rest : List Char} {c : Option Char}
    (h : readUnicode t = some (c, rest)) : rest <:+ t := by
  unfold readUnicode at h
  split at h
  · cases h
  · rename_i hhigh
    have hr := suffix_of_readHex4 hhigh
    split at h
    · split at h
      · split at h
        · rename_i hlow
          have hr' := (suffix_of_readHex4 hlow).trans ⟨['\\', 'u'], rfl⟩
          split at h <;> cases h
          · exact hr'.trans hr
          · exact hr
        · cases h
      · cases h
        exact hr
    · split at h <;> cases h <;> exact hr

theorem suffix_of_readChars {bound t rest : List Char} {cs : List (Option Char)}
    (h : readChars bound t = some (cs, rest)) : rest <:+ t := by
  induction bound generalizing t cs with
  | nil => simp [readChars] at h
  | cons b bound ih =>
    rw [readChars.eq_def] at h
    simp only at h
    split at h
    · cases h
    · cases h
      exact List.suffix_cons _ _
    · simp only [Option.bind_eq_some_iff, Option.map_eq_some_iff, Prod.exists] at h
      obtain ⟨c, r', hunicode, cs', rest', hrest, heq⟩ := h
      cases heq
      exact ((ih hrest).trans (suffix_of_readUnicode hunicode)).trans ⟨['\\', 'u'], rfl⟩
    · rename_i e r _
      simp only [Option.bind_eq_some_iff, Option.map_eq_some_iff, Prod.exists] at h
      obtain ⟨c, -, cs', rest', hrest, heq⟩ := h
      cases heq
      exact (ih hrest).trans ⟨['\\', e], rfl⟩
    · split at h
      · cases h
      · simp only [Option.map_eq_some_iff, Prod.exists] at h
        obtain ⟨cs', rest', hrest, heq⟩ := h
        cases heq
        exact (ih hrest).trans (List.suffix_cons _ _)

theorem suffix_of_readWord {t rest : List Char} {v : Json} (h : readWord t = some (v, rest)) :
    rest <:+ t := by
  obtain ⟨⟨word, w⟩, -, hread⟩ := List.exists_of_findSome?_eq_some h
  obtain ⟨r, hafter, heq⟩ := Option.map_eq_some_iff.mp hread
  cases heq
  unfold after? at hafter
  split at hafter
  · cases hafter
    exact List.drop_suffix _ _
  · cases hafter

/-! ## Numbers -/

theorem digitsValue_lt {ds : List Char} (h : ∀ c ∈ ds, c.isDigit = true) :
    digitsValue ds < Nat.pow 10 ds.length := by
  induction ds using List.reverseRecOn with
  | nil => decide
  | append_singleton ds c ih =>
    obtain ⟨hds, hc⟩ := List.forall_mem_append.mp h
    have hlt := ih hds
    have hdigit : c.toNat ≤ 57 := by
      have hc := hc c (List.mem_singleton_self c)
      simp only [Char.isDigit, ge_iff_le, Bool.and_eq_true, decide_eq_true_eq] at hc
      exact hc.2
    have hpow : Nat.pow 10 (ds.length + 1) = Nat.pow 10 ds.length * 10 := rfl
    rw [digitsValue, List.foldl_concat, ← digitsValue, List.length_append,
      List.length_singleton, hpow]
    omega

/-- The digits of an integer part stand before what is left. -/
theorem eq_append_of_readWhole {t whole rest : List Char} (h : readWhole t = some (whole, rest)) :
    whole ++ rest = t ∧ ∀ c ∈ whole, c.isDigit = true := by
  unfold readWhole at h
  split at h
  · cases h
    exact ⟨rfl, by simp⟩
  · split at h
    · cases h
      exact ⟨List.takeWhile_append_dropWhile, List.all_eq_true.mp List.all_takeWhile⟩
    · cases h
  · cases h

theorem readFraction_suffix (t : List Char) : (readFraction t).2 <:+ t := by
  unfold readFraction
  split
  · dsimp only
    split
    · exact List.suffix_refl _
    · exact (List.dropWhile_suffix _).trans (List.suffix_cons _ _)
  · exact List.suffix_refl _

theorem splitSign_suffix (t : List Char) : (Text.splitSign t).2 <:+ t := by
  unfold Text.splitSign
  split
  · exact List.suffix_cons _ _
  · exact List.suffix_cons _ _
  · exact List.suffix_refl _

theorem readExponent_suffix (t : List Char) : (readExponent t).2 <:+ t := by
  unfold readExponent
  split
  · rename_i e r
    split
    · have hsign := splitSign_suffix r
      dsimp only
      split
      · exact List.suffix_refl _
      · exact ((List.dropWhile_suffix _).trans hsign).trans (List.suffix_cons _ _)
    · exact List.suffix_refl _
  · exact List.suffix_refl _

theorem readInteger_tallies {room : Nat} {t whole rest : List Char} (negative : Bool)
    (hpart : whole <:+: t) (hdigits : ∀ c ∈ whole, c.isDigit = true) (hrest : rest <:+ t) :
    Tallies room t ((readInteger true negative whole).map fun v => (v, rest))
      ((readInteger false negative whole).map fun v => (v, rest)) := by
  unfold readInteger
  by_cases hlong : Text.isWritable (digitsValue whole) = true
  · simp only [hlong, Bool.not_true, Bool.and_false]
    exact .ok _ hrest
  · have hlength : Text.maxDigits < whole.length := by
      rw [Text.isWritable, decide_eq_true_eq, not_lt] at hlong
      -- Otherwise the power would be computed.
      generalize Text.maxDigits = limit at hlong ⊢
      exact (Nat.pow_lt_pow_iff_right (by decide)).mp (hlong.trans_lt (digitsValue_lt hdigits))
    simp only [Bool.true_and, hlong, Bool.not_false, if_true]
    exact .excess (.digits hpart hdigits hlength)

theorem splitMinus_suffix (t : List Char) : (splitMinus t).2 <:+ t := by
  unfold splitMinus
  split
  · exact List.suffix_cons _ _
  · exact List.suffix_refl _

theorem readNumber_tallies (room : Nat) (t : List Char) :
    Tallies room t (readNumber true t) (readNumber false t) := by
  unfold readNumber
  have hsign := splitMinus_suffix t
  dsimp only
  cases hwhole : readWhole (splitMinus t).2 with
  | none => exact .malformed
  | some found =>
    obtain ⟨whole, afterWhole⟩ := found
    obtain ⟨happend, hdigits⟩ := eq_append_of_readWhole hwhole
    have hpart : whole <:+: t := (List.IsPrefix.isInfix ⟨afterWhole, happend⟩).trans hsign.isInfix
    have hrest : (readExponent (readFraction afterWhole).2).2 <:+ t :=
      ((readExponent_suffix _).trans (readFraction_suffix _)).trans
        (List.IsSuffix.trans ⟨whole, happend⟩ hsign)
    dsimp only
    split
    · exact readInteger_tallies _ hpart hdigits hrest
    · exact .ok _ hrest

/-! ## The readers -/

/-- The three readers tally as long as they take at most `n` steps. -/
structure ReadsTally (n : Nat) : Prop where
  value : ∀ room t, Tallies room t (readValue n (some room) t) (readValue n none t)
  items : ∀ room t, Tallies room t (readItems n (some room) t) (readItems n none t)
  fields : ∀ room held t,
    Tallies room t (readFields n (some room) held t) (readFields n none held t)

theorem openings_cons_open {c : Char} (h : c = '[' ∨ c = '{') (t : List Char) :
    openings (c :: t) = openings t + 1 := by
  obtain rfl | rfl := h <;> simp [openings]

/-- Inside a bracket there is room for one bracket less. -/
theorem Tallies.inside {α : Type} {room : Nat} {c : Char} {r t : List Char}
    {x y : Except Flaw (α × List Char)} (h : Tallies room t x y) (hc : c = '[' ∨ c = '{')
    (hpart : t <:+ r) : Tallies (room + 1) (c :: r) x y := by
  have hle := openings_le_of_suffix hpart
  have hcount := openings_cons_open hc r
  exact h.mono (hpart.trans (List.suffix_cons c r)) (by omega)

theorem Tallies.no_room {α : Type} {c : Char} (hc : c = '[' ∨ c = '{') (r : List Char)
    (y : Except Flaw (α × List Char)) : Tallies 0 (c :: r) (.error .tooDeep) y := by
  have hcount := openings_cons_open hc r
  exact .excess (.brackets (by omega))

variable {n : Nat}

theorem ReadsTally.value_succ (ih : ReadsTally n) (room : Nat) (t : List Char) :
    Tallies room t (readValue (n + 1) (some room) t) (readValue (n + 1) none t) := by
  rw [readValue.eq_def, readValue.eq_def (n + 1) none]
  dsimp only
  split
  · split
    · rename_i hchars
      exact .ok _ ((suffix_of_readChars hchars).trans (List.suffix_cons _ _))
    · exact .malformed
  · rename_i r
    cases room with
    | zero => exact .no_room (.inl rfl) r _
    | succ room =>
      simp only [Option.some.injEq, Nat.add_eq_zero_iff, Nat.one_ne_zero, and_false, if_false,
        Option.map_some, Nat.add_sub_cancel, Option.map_none, reduceCtorEq]
      split
      · rename_i hskip
        exact .ok _ ((suffix_of_skip hskip).trans (List.suffix_cons _ _))
      · exact ((ih.items room (skip r)).map arr).inside (.inl rfl) (skip_suffix r)
  · rename_i r
    cases room with
    | zero => exact .no_room (.inr rfl) r _
    | succ room =>
      simp only [Option.some.injEq, Nat.add_eq_zero_iff, Nat.one_ne_zero, and_false, if_false,
        Option.map_some, Nat.add_sub_cancel, Option.map_none, reduceCtorEq]
      split
      · rename_i hskip
        exact .ok _ ((suffix_of_skip hskip).trans (List.suffix_cons _ _))
      · exact ((ih.fields room [] (skip r)).map obj).inside (.inr rfl) (skip_suffix r)
  · split
    · rename_i hword
      exact .ok _ (suffix_of_readWord hword)
    · exact readNumber_tallies room t

theorem ReadsTally.items_succ (ih : ReadsTally n) (room : Nat) (t : List Char) :
    Tallies room t (readItems (n + 1) (some room) t) (readItems (n + 1) none t) := by
  rw [readItems, readItems]
  have hvalue := ih.value room t
  generalize readValue n (some room) t = confined at hvalue ⊢
  generalize readValue n none t = free at hvalue ⊢
  cases hvalue with
  | malformed => exact .malformed
  | excess h => exact .excess h
  | ok v hrest =>
    dsimp only
    split
    · rename_i hskip
      exact .ok _ ((suffix_of_skip hskip).trans hrest)
    · rename_i r' hskip
      have hpart := ((skip_suffix r').trans (suffix_of_skip hskip)).trans hrest
      exact ((ih.items room (skip r')).map (v :: ·)).of_suffix hpart
    · exact .malformed

theorem ReadsTally.fields_succ (ih : ReadsTally n) (room : Nat) (held : List (String × Json))
    (t : List Char) :
    Tallies room t (readFields (n + 1) (some room) held t) (readFields (n + 1) none held t) := by
  rw [readFields.eq_def, readFields.eq_def (n + 1) none]
  dsimp only
  split
  · rename_i r
    split
    · exact .malformed
    · rename_i name r₁ hchars
      split
      · rename_i r₂ hcolon
        have hpart : skip r₂ <:+ '"' :: r :=
          ((skip_suffix r₂).trans (suffix_of_skip hcolon)).trans
            ((suffix_of_readChars hchars).trans (List.suffix_cons _ _))
        have hvalue := (ih.value room (skip r₂)).of_suffix hpart
        generalize readValue n (some room) (skip r₂) = confined at hvalue ⊢
        generalize readValue n none (skip r₂) = free at hvalue ⊢
        cases hvalue with
        | malformed => exact .malformed
        | excess h => exact .excess h
        | ok v hrest =>
          dsimp only
          split
          · rename_i hskip
            exact .ok _ ((suffix_of_skip hskip).trans hrest)
          · rename_i r₄ hskip
            have hpart := ((skip_suffix r₄).trans (suffix_of_skip hskip)).trans hrest
            exact (ih.fields room _ (skip r₄)).of_suffix hpart
          · exact .malformed
      · exact .malformed
  · exact .malformed

theorem readsTally (n : Nat) : ReadsTally n := by
  induction n with
  | zero =>
    constructor <;> intros
    · exact .malformed
    · exact .malformed
    · exact .malformed
  | succ n ih => exact ⟨ih.value_succ, ih.items_succ, ih.fields_succ⟩

/-! ## Texts -/

/-- A file is read as any text is, unless it has too many brackets or too many digits in a row. -/
theorem parseFile_tallies (t : List Char) :
    (∃ v, parseFile t = .ok v ∧ parse? t = some v) ∨
      (parseFile t = .error .malformed ∧ parse? t = none) ∨
      ∃ flaw, parseFile t = .error flaw ∧ Excess maxNesting t flaw := by
  unfold parseFile parse? read
  have hvalue := (readsTally (t.length + 1)).value maxNesting (skip t)
  generalize readValue (t.length + 1) (some maxNesting) (skip t) = confined at hvalue ⊢
  generalize readValue (t.length + 1) none (skip t) = free at hvalue ⊢
  cases hvalue with
  | malformed => exact .inr (.inl ⟨rfl, rfl⟩)
  | excess h => exact .inr (.inr ⟨_, rfl, h.of_suffix (skip_suffix t)⟩)
  | ok v hrest =>
    dsimp only
    split
    · exact .inl ⟨v, rfl, rfl⟩
    · exact .inr (.inl ⟨rfl, rfl⟩)

end NullAccess.Json
