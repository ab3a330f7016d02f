import NullAccess.Proofs.Analysis.LongRead

/-!
# What a mask hides

A scan of an expression knows at each character how many parentheses are open.  A character stands
inside them when one is open both before it and behind it; so the outermost pair stands outside.
The mask blots out what stands inside and nothing else (`getElem?_mask`).  A second scan sees one
open parenthesis wherever the first one saw any (`State.outline`), so a mask is masked already
(`mask_mask`).

An argument list that closes what it opens is one row of blots, and the scan goes on behind it as if
there had been none (`mask_call`).  What is written in it has therefore no say in the ruling
(`ruling_ignores_arguments`).
-/

namespace NullAccess

namespace Mask

namespace State

variable {s : State} {c : Char} {t : List Char}

/-- The state after a text. -/
def after (s : State) (t : List Char) : State := t.foldl next s

theorem after_append (s : State) (t u : List Char) : s.after (t ++ u) = (s.after t).after u :=
  List.foldl_append

/-- A character is escaped only in a quotation. -/
def EscapesInQuotes (s : State) : Prop := s.quote = none → s.escaped = false

theorem EscapesInQuotes.next (h : s.EscapesInQuotes) (c : Char) : (s.next c).EscapesInQuotes := by
  cases hquote : s.quote with
  | none =>
    have hescaped := h hquote
    unfold State.next EscapesInQuotes
    rw [hquote]
    dsimp only
    split
    · exact fun _ => hescaped
    · split
      · exact fun _ => hescaped
      · split <;> exact fun _ => hescaped
  | some q =>
    unfold State.next EscapesInQuotes
    rw [hquote]
    dsimp only
    split
    · exact fun _ => rfl
    · rename_i hescaped
      rw [Bool.not_eq_true] at hescaped
      split
      · exact nofun
      · split <;> exact fun _ => hescaped

theorem EscapesInQuotes.after (h : s.EscapesInQuotes) (t : List Char) :
    (s.after t).EscapesInQuotes := by
  induction t generalizing s with
  | nil => exact h
  | cons c r ih => exact ih (h.next c)

theorem escapesInQuotes_of_depth (depth : Nat) : EscapesInQuotes { depth := depth } := fun _ => rfl

/-- Outside quotes the depth is all that is known of a scan. -/
theorem EscapesInQuotes.eq_of_unquoted (h : s.EscapesInQuotes) (hquote : s.quote = none) :
    s = { depth := s.depth } := by
  have hescaped := h hquote
  obtain ⟨depth, quote, escaped⟩ := s
  cases hquote
  cases hescaped
  rfl

/-- Only a parenthesis outside quotes moves the depth. -/
theorem depth_next (s : State) (c : Char) :
    (s.next c).depth = if s.quote = none ∧ c = '(' then s.depth + 1
      else if s.quote = none ∧ c = ')' then s.depth - 1 else s.depth := by
  cases hquote : s.quote with
  | none =>
    unfold next
    rw [hquote]
    dsimp only
    by_cases hmark : c = '\'' ∨ c = '"' ∨ c = '`'
    · have hopen : c ≠ '(' := by rintro rfl; revert hmark; decide
      have hclose : c ≠ ')' := by rintro rfl; revert hmark; decide
      simp [hmark, hopen, hclose]
    · rw [if_neg hmark]
      by_cases hopen : c = '('
      · simp [hopen]
      · by_cases hclose : c = ')' <;> simp [hopen, hclose]
  | some q =>
    unfold next
    rw [hquote]
    dsimp only
    split
    · simp
    · split
      · simp
      · split <;> simp

/-- A character is blotted out where a parenthesis is open before it and behind it. -/
theorem shown_eq (s : State) (c : Char) :
    s.shown c = if s.depth = 0 ∨ (s.next c).depth = 0 then c else '_' := by
  rw [depth_next]
  unfold shown shade
  by_cases hclose : s.quote = none ∧ c = ')'
  · obtain ⟨hquote, rfl⟩ := hclose
    simp only [hquote, true_and, if_true, show (')' = '(') = False by decide, if_false]
    by_cases hdepth : s.depth - 1 = 0
    · rw [if_pos hdepth, if_pos (.inr hdepth)]
    · rw [if_neg hdepth, if_neg (by omega)]
  · rw [if_neg hclose, if_neg hclose]
    by_cases hdepth : s.depth = 0
    · rw [if_pos hdepth, if_pos (.inl hdepth)]
    · rw [if_neg hdepth]
      split <;> rw [if_neg (by omega)]

/-! ## The scan of a mask -/

/-- What a scan of the mask knows: outside all parentheses everything, inside only that one is
open. -/
def outline (s : State) : State := if s.depth = 0 then s else { depth := 1 }

theorem outline_of_outside (h : s.depth = 0) : s.outline = s := if_pos h

theorem outline_of_inside (h : s.depth ≠ 0) : s.outline = { depth := 1 } := if_neg h

/-- From outside, only a parenthesis outside quotes leads inside. -/
theorem opens_of_depth (hdepth : s.depth = 0) (hnext : (s.next c).depth ≠ 0) :
    s.quote = none ∧ c = '(' := by
  rw [depth_next] at hnext
  split at hnext
  · assumption
  · split at hnext <;> omega

/-- From inside, only the parenthesis that closes the last open one leads outside. -/
theorem closes_of_depth (hdepth : s.depth ≠ 0) (hnext : (s.next c).depth = 0) :
    s.depth = 1 ∧ s.quote = none ∧ c = ')' := by
  rw [depth_next] at hnext
  split at hnext
  · omega
  · split at hnext
    · exact ⟨by omega, by assumption⟩
    · omega

/-- The scan of the mask keeps in step with the scan of the text. -/
theorem next_outline (h : s.EscapesInQuotes) (c : Char) :
    s.outline.next (s.shown c) = (s.next c).outline := by
  rw [shown_eq]
  by_cases hdepth : s.depth = 0
  · rw [outline_of_outside hdepth, if_pos (.inl hdepth)]
    by_cases hnext : (s.next c).depth = 0
    · rw [outline_of_outside hnext]
    · obtain ⟨hquote, rfl⟩ := opens_of_depth hdepth hnext
      rw [outline_of_inside hnext, h.eq_of_unquoted hquote, hdepth]
      rfl
  · rw [outline_of_inside hdepth]
    by_cases hnext : (s.next c).depth = 0
    · obtain ⟨hone, hquote, rfl⟩ := closes_of_depth hdepth hnext
      rw [outline_of_outside hnext, if_pos (.inr hnext), h.eq_of_unquoted hquote, hone]
    · rw [outline_of_inside hnext, if_neg (by omega)]
      rfl

theorem shown_outline (h : s.EscapesInQuotes) (c : Char) :
    s.outline.shown (s.shown c) = s.shown c := by
  rw [shown_eq s.outline, next_outline h]
  by_cases hdepth : s.depth = 0
  · rw [outline_of_outside hdepth, if_pos (.inl hdepth)]
  · by_cases hnext : (s.next c).depth = 0
    · rw [outline_of_outside hnext, if_pos (.inr hnext)]
    · rw [shown_eq, if_neg (show ¬ (s.depth = 0 ∨ (s.next c).depth = 0) by omega)]
      split <;> rfl

end State

variable {s : State} {p a b t u : List Char}

/-! ## What is blotted out -/

theorem maskFrom_append (s : State) (t u : List Char) :
    maskFrom s (t ++ u) = maskFrom s t ++ maskFrom (s.after t) u := by
  induction t generalizing s with
  | nil => rfl
  | cons c r ih => exact congrArg (s.shown c :: ·) (ih (s.next c))

/-- Whether column `i` of a text stands inside parentheses: one is open before it and behind it. -/
def Inside (t : List Char) (i : Nat) : Prop :=
  (State.after {} (t.take i)).depth ≠ 0 ∧ (State.after {} (t.take (i + 1))).depth ≠ 0

theorem getElem?_maskFrom (s : State) (t : List Char) (i : Nat) :
    (maskFrom s t)[i]? = t[i]?.map (s.after (t.take i)).shown := by
  induction t generalizing s i with
  | nil => rfl
  | cons c r ih =>
    cases i with
    | zero => rfl
    | succ i => exact ih (s.next c) i

instance (t : List Char) (i : Nat) : Decidable (Inside t i) := inferInstanceAs (Decidable (_ ∧ _))

/-- The mask, column by column. -/
theorem getElem?_mask (t : List Char) (i : Nat) :
    (mask t)[i]? = t[i]?.map fun c => if Inside t i then '_' else c := by
  rw [mask, getElem?_maskFrom]
  cases hc : t[i]? with
  | none => rfl
  | some c =>
    have hnext : State.after {} (t.take (i + 1)) = (State.after {} (t.take i)).next c := by
      rw [List.take_add_one, hc, State.after_append]
      rfl
    have hinside : Inside t i ↔ (State.after {} (t.take i)).depth ≠ 0 ∧
        ((State.after {} (t.take i)).next c).depth ≠ 0 := by
      rw [Inside, hnext]
    rw [Option.map_some, Option.map_some, State.shown_eq]
    by_cases h : Inside t i
    · rw [if_pos h, if_neg (by have := hinside.mp h; omega)]
    · rw [if_neg h, if_pos (by have := mt hinside.mpr h; omega)]

theorem maskFrom_maskFrom (h : s.EscapesInQuotes) (t : List Char) :
    maskFrom s.outline (maskFrom s t) = maskFrom s t := by
  induction t generalizing s with
  | nil => rfl
  | cons c r ih =>
    rw [maskFrom, maskFrom, State.shown_outline h, State.next_outline h, ih (h.next c)]

/-- A mask is masked already. -/
theorem mask_mask (t : List Char) : mask (mask t) = mask t :=
  maskFrom_maskFrom (State.escapesInQuotes_of_depth 0) t

/-! ## Argument lists -/

/-- An argument list: read behind a parenthesis it never closes that one, and it leaves nothing else
open. -/
structure WellNested (a : List Char) : Prop where
  open_throughout : ∀ u, u <+: a → (State.after { depth := 1 } u).depth ≠ 0
  depth_end : (State.after { depth := 1 } a).depth = 1
  quote_end : (State.after { depth := 1 } a).quote = none

theorem wellNested_iff (a : List Char) :
    WellNested a ↔
      (∀ i ∈ List.range (a.length + 1), (State.after { depth := 1 } (a.take i)).depth ≠ 0) ∧
      (State.after { depth := 1 } a).depth = 1 ∧ (State.after { depth := 1 } a).quote = none := by
  constructor
  · rintro ⟨hopen, hdepth, hquote⟩
    exact ⟨fun i _ => hopen _ (List.take_prefix i a), hdepth, hquote⟩
  · rintro ⟨hopen, hdepth, hquote⟩
    refine ⟨fun u hu => ?_, hdepth, hquote⟩
    rw [List.prefix_iff_eq_take.mp hu]
    exact hopen _ (List.mem_range.mpr (Nat.lt_succ_of_le hu.length_le))

instance (a : List Char) : Decidable (WellNested a) := decidable_of_iff _ (wellNested_iff a).symm

theorem maskFrom_of_open (h : ∀ u, u <+: t → (s.after u).depth ≠ 0) :
    maskFrom s t = List.replicate t.length '_' := by
  induction t generalizing s with
  | nil => rfl
  | cons c r ih =>
    have hhere : s.depth ≠ 0 := h [] List.nil_prefix
    have hnext : (s.next c).depth ≠ 0 := h [c] (by simp)
    have hrest : ∀ u, u <+: r → ((s.next c).after u).depth ≠ 0 := fun u hu =>
      h (c :: u) (by simpa using hu)
    rw [maskFrom, ih hrest, State.shown_eq, if_neg (by omega),
      List.length_cons, List.replicate_succ]

theorem WellNested.after_eq (h : WellNested a) : State.after { depth := 1 } a = { depth := 1 } := by
  have hend := ((State.escapesInQuotes_of_depth 1).after a).eq_of_unquoted h.quote_end
  rwa [h.depth_end] at hend

/-- The mask of a call: the parentheses stay, and behind them the scan begins anew. -/
theorem mask_call (hdepth : (State.after {} p).depth = 0) (hquote : (State.after {} p).quote = none)
    (ha : WellNested a) (t : List Char) :
    mask (p ++ '(' :: a ++ ')' :: t) =
      mask p ++ '(' :: List.replicate a.length '_' ++ ')' :: mask t := by
  have hstart : State.after {} p = {} := by
    have hend := ((State.escapesInQuotes_of_depth 0).after p).eq_of_unquoted hquote
    rwa [hdepth] at hend
  have hopen : maskFrom { depth := 1 } (a ++ ')' :: t) =
      List.replicate a.length '_' ++ ')' :: mask t := by
    rw [maskFrom_append, maskFrom_of_open ha.open_throughout, ha.after_eq]
    rfl
  rw [List.append_assoc, mask, maskFrom_append, hstart, List.append_assoc]
  exact congrArg (mask p ++ '(' :: ·) hopen

theorem mask_call_congr (hdepth : (State.after {} p).depth = 0)
    (hquote : (State.after {} p).quote = none) (ha : WellNested a) (hb : WellNested b)
    (hlength : a.length = b.length) (t : List Char) :
    mask (p ++ '(' :: a ++ ')' :: t) = mask (p ++ '(' :: b ++ ')' :: t) := by
  rw [mask_call hdepth hquote ha, mask_call hdepth hquote hb, hlength]

end Mask

namespace RuleSet

open Mask

/-- The mask blots out what stands inside parentheses, character by character, and nothing else;
once is enough.  So under rules that compile the arguments of a call, as long as the call keeps its
length, have no say in the ruling. -/
theorem ruling_ignores_arguments {rules : RuleSet} (hrules : rules.Compiles) :
    (∀ t, (mask t).length = t.length ∧
      (∀ (i : Nat) (c : Char), t[i]? = some c → (Inside t i → (mask t)[i]? = some '_') ∧
        (¬ Inside t i → (mask t)[i]? = some c)) ∧
      mask (mask t) = mask t) ∧
    ∀ p a b t, (State.after {} p).depth = 0 → (State.after {} p).quote = none → WellNested a →
      WellNested b → a.length = b.length →
      ∃ ruling, rules.evaluate (p ++ '(' :: a ++ ')' :: t) = .ok ruling ∧
        rules.evaluate (p ++ '(' :: b ++ ')' :: t) = .ok ruling := by
  refine ⟨fun t => ⟨length_mask t, fun i c hc => ⟨fun hin => ?_, fun hout => ?_⟩, mask_mask t⟩, ?_⟩
  · rw [getElem?_mask, hc, Option.map_some, if_pos hin]
  · rw [getElem?_mask, hc, Option.map_some, if_neg hout]
  · intro p a b t hdepth hquote ha hb hlength
    obtain ⟨ruling, hruling⟩ := evaluate_ok hrules (p ++ '(' :: a ++ ')' :: t)
    refine ⟨ruling, hruling, ?_⟩
    rw [evaluate, ← mask_call_congr hdepth hquote ha hb hlength t]
    exact hruling

/-- A quoted parenthesis beside the name that the rule looks for, and a call in its place. -/
theorem ruling_ignores_arguments_sample :
    Analysis.lookupRules.Compiles ∧ WellNested "'a)'".toList ∧ WellNested "f(1)".toList ∧
      ∃ ruling,
        Analysis.lookupRules.evaluate ("get".toList ++ '(' :: "'a)'".toList ++ ')' :: ".b".toList) =
          .ok ruling ∧
        Analysis.lookupRules.evaluate ("get".toList ++ '(' :: "f(1)".toList ++ ')' :: ".b".toList) =
          .ok ruling := by
  have hquoted : WellNested "'a)'".toList := by decide
  have hcall : WellNested "f(1)".toList := by decide
  obtain ⟨-, hsame⟩ := ruling_ignores_arguments Analysis.compiles_lookupRules
  exact ⟨Analysis.compiles_lookupRules, hquoted, hcall,
    hsame "get".toList _ _ _ (by decide) (by decide) hquoted hcall (by decide)⟩

end RuleSet

end NullAccess
