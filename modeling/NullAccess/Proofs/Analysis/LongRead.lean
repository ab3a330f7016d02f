import NullAccess.Proofs.Analysis.Declared

/-!
# A declaration that ends the analysis

A variable is initialised with an element of a sequence, and the element's number has more digits
than any number that is read.  By the rules it may give no value; then the number is asked for, and
there is none (`overlong_readOf`).
-/

namespace NullAccess

open Pattern

theorem Text.holds_of_not_mem {part t : List Char} {c : Char} (hc : c ∈ part) (ht : c ∉ t) :
    holds part t = false := by
  rw [Bool.eq_false_iff, ne_eq, holds_iff_isInfix]
  exact fun h => ht (h.subset hc)

theorem Text.trim_of_ends {c d : Char} (hc : isBlank c = false) (hd : isBlank d = false)
    (t : List Char) : trim (c :: (t ++ [d])) = c :: (t ++ [d]) := by
  unfold trim trimRight dropEndWhile
  rw [trimLeft_cons_of_not_blank _ hc]
  simp [hd]

theorem Source.code_of_not_mem {l : Line} (h : '/' ∉ l) : code l = l := by
  suffices hfrom : ∀ quote, codeFrom quote l = l from hfrom none
  induction l with
  | nil => exact fun quote => rfl
  | cons c r ih =>
    intro quote
    have hr := ih fun hmem => h (List.mem_cons_of_mem c hmem)
    have hslash : ¬ (c = '/' ∧ r.head? = some '/') := fun hboth => h (hboth.1 ▸ List.mem_cons_self)
    unfold codeFrom
    cases quote with
    | some q => exact congrArg (c :: ·) (hr _)
    | none =>
      dsimp only
      rw [if_neg hslash, hr, hr, ite_self]

namespace Classifier

/-- Without an `f` and an arrow no function is declared. -/
theorem alone_of_not_mem {code : Line} (hf : 'f' ∉ code) (harrow : '>' ∉ code) :
    Declaration.forEachLoop.occursIn code = false ∧ Declaration.function.findAll code = [] ∧
      [Declaration.arrow, Declaration.arrowSingle].filterMap (·.find? code) = [] ∧
      Declaration.route.find? code = none := by
  have hloop : Needs 'f' Declaration.forEachLoop := by
    unfold Declaration.forEachLoop
    iterate 10 refine Needs.left ?_ _
    exact (needs_lit (by decide)).right _
  have hfunction : Needs 'f' Declaration.function := by
    unfold Declaration.function
    iterate 7 refine Needs.left ?_ _
    exact (needs_lit (by decide)).right _
  have hends : ∀ a, (a ++ lit "=>").find? code = none := by
    intro a
    have hsign : Needs '>' (lit "=>") := needs_lit (by decide)
    exact (hsign.right a).find? harrow
  refine ⟨?_, hfunction.findAll hf, ?_, hends _⟩
  · rw [occursIn, hloop.find? hf]
    rfl
  · rw [List.filterMap_eq_nil_iff]
    intro a ha
    simp only [List.mem_cons, List.not_mem_nil, or_false] at ha
    rcases ha with rfl | rfl <;> exact hends _

/-- The initialiser of a variable is the rest of its line. -/
theorem exists_variableInit {r : List Char} (hr : '\n' ∉ r) :
    ∃ m, Declaration.variableInit.find? ("let x=a".toList ++ r) = some m ∧
      m.group 2 = 'a' :: r := by
  have hinLine : ∀ c ∈ r, (c != '\n') = true := by
    intro c hc
    have hne : c ≠ '\n' := fun heq => hr (heq ▸ hc)
    simpa using hne
  -- The parts of the pattern one after the other, each with its preferred end.
  have hkeyword : (Declaration.declarator.ends (Place.start ("let x=a".toList ++ r))).head? =
      some ⟨[' ', 't', 'e', 'l'], 'x' :: '=' :: 'a' :: r, []⟩ :=
    head?_ends_seq (u := ⟨['t', 'e', 'l'], ' ' :: 'x' :: '=' :: 'a' :: r, []⟩) rfl
      (head?_ends_some1 (r := []) (by decide) nofun (by rintro c ⟨⟩; decide) _ _)
  have hname : ((Declaration.plainName 1).ends
      ⟨[' ', 't', 'e', 'l'], 'x' :: '=' :: 'a' :: r, []⟩).head? =
      some ⟨['x', ' ', 't', 'e', 'l'], '=' :: 'a' :: r,
        [(1, 'x' :: '=' :: 'a' :: r, '=' :: 'a' :: r)]⟩ :=
    head?_ends_group (head?_ends_seq (u := ⟨['x', ' ', 't', 'e', 'l'], '=' :: 'a' :: r, []⟩)
      (by rw [ends_one_cons, if_pos (by decide)]; rfl)
      (head?_ends_many (r := []) nofun (by rintro c ⟨⟩; decide) _ _))
  generalize [(1, 'x' :: '=' :: 'a' :: r, '=' :: 'a' :: r)] = gs at hname
  have hblanks : ∀ (b : List Char) {c : Char} (r : List Char), Text.isBlank c = false →
      (blanks.ends ⟨b, c :: r, gs⟩).head? = some ⟨b, c :: r, gs⟩ := by
    intro b c r hc
    refine head?_ends_many (r := []) nofun ?_ b gs
    rintro d ⟨⟩
    exact hc
  have hinitialiser : ∀ b, ((group 2 (some1 inLine)).ends ⟨b, 'a' :: r, gs⟩).head? =
      some ⟨('a' :: r).reverse ++ b, [], (2, 'a' :: r, []) :: gs⟩ := by
    intro b
    have hrun := head?_ends_some1 (c := 'a') (t := []) (by decide) hinLine nofun b gs
    rw [List.append_nil] at hrun
    exact head?_ends_group hrun
  have hends := head?_ends_seq hkeyword hname
  replace hends := head?_ends_seq hends (hblanks _ _ (by decide))
  replace hends := head?_ends_seq hends (b := opt (chr ':' ++ blanks ++ some1Few (noneOf "="))) rfl
  replace hends := head?_ends_seq hends (b := chr '=') rfl
  replace hends := head?_ends_seq hends (b := ahead false (oneOf "=>")) rfl
  replace hends := head?_ends_seq hends (hblanks _ _ (by decide))
  replace hends := head?_ends_seq hends (hinitialiser _)
  exact ⟨_, find?_of_head? hends, by simp [Match.group, Match.group?, Place.group?]⟩

/-- An element is read by the number between the brackets. -/
theorem exists_indexed {d : Char} {ds : List Char} (hd : Text.isDecimal d = true)
    (hds : ∀ c ∈ ds, Text.isDecimal c = true) :
    ∃ m, Declaration.indexed.matchStart? ('a' :: '[' :: d :: (ds ++ [']'])) = some m ∧
      m.group 2 = d :: ds := by
  have hpath : ((group 1 (some1 (one fun c => Text.isNameChar c || c == '.'))).ends
      (Place.start ('a' :: '[' :: d :: (ds ++ [']'])))).head? =
      some ⟨['a'], '[' :: d :: (ds ++ [']']),
        [(1, 'a' :: '[' :: d :: (ds ++ [']']), '[' :: d :: (ds ++ [']']))]⟩ :=
    head?_ends_group (head?_ends_some1 (r := []) (by decide) nofun (by rintro c ⟨⟩; decide) _ _)
  generalize [(1, 'a' :: '[' :: d :: (ds ++ [']']), '[' :: d :: (ds ++ [']']))] = gs at hpath
  have hnumber : ((group 2 (some1 (one Text.isDecimal))).ends
      ⟨['[', 'a'], d :: (ds ++ [']']), gs⟩).head? =
      some ⟨(d :: ds).reverse ++ ['[', 'a'], [']'], (2, d :: (ds ++ [']']), [']']) :: gs⟩ :=
    head?_ends_group (head?_ends_some1 hd hds (by rintro c ⟨⟩; decide) _ _)
  have hends :=
    head?_ends_seq (a := start) (s := Place.start ('a' :: '[' :: d :: (ds ++ [']']))) rfl
    hpath
  replace hends := head?_ends_seq hends (b := chr '[') rfl
  replace hends := head?_ends_seq hends hnumber
  replace hends := head?_ends_seq hends (b := chr ']') rfl
  refine ⟨_, matchStart?_of_head? hends, ?_⟩
  simp [Match.group, Match.group?, Place.group?]

theorem initialiser_of_ends {c d : Char} (hc : Text.isBlank c = false) (hd : Text.isBlank d = false)
    (hsemicolon : d ≠ ';') (t : List Char) : initialiser (c :: (t ++ [d])) = c :: (t ++ [d]) := by
  have hkept : Text.dropEndWhile (· == ';') (c :: (t ++ [d])) = c :: (t ++ [d]) := by
    simp [Text.dropEndWhile, hsemicolon]
  unfold initialiser
  rw [Text.trim_of_ends hc hd, hkept, Text.trim_of_ends hc hd]

end Classifier

namespace Analysis

/-- The rule that an initialiser which holds an `a` may give no value. -/
def lookupRule : Rule :=
  { id := "lookup", pattern := "a", verdict := .mayBeAbsent, shape := .elementLookup }

def lookupRules : RuleSet := { rules := [lookupRule] }

theorem exists_lookup : ∃ p, Pattern.ofString "a" = .ok p ∧ ∀ r, p.occursIn ('a' :: r) = true :=
  ⟨_, rfl, fun _ => rfl⟩

theorem compiles_lookupRules : lookupRules.Compiles := by
  obtain ⟨p, hp, -⟩ := exists_lookup
  intro rule hrule
  rw [List.mem_singleton.mp hrule, lookupRule, hp]
  rfl

theorem evaluate_lookupRules (r : List Char) :
    lookupRules.evaluate ('a' :: r) = .ok (.ofRule lookupRule) := by
  obtain ⟨p, hp, hoccurs⟩ := exists_lookup
  have hnone : lookupRules.candidates .alwaysValue = [] := by
    simp [RuleSet.candidates, lookupRules, lookupRule]
  have hone : lookupRules.candidates .mayBeAbsent = [lookupRule] := by
    simp [RuleSet.candidates, lookupRules, lookupRule]
  have hmatches : ∀ t, lookupRule.matches? ('a' :: t) = .ok true := by
    intro t
    rw [Rule.matches?, lookupRule, hp]
    exact congrArg Except.ok (hoccurs t)
  have hmask : Mask.mask ('a' :: r) = 'a' :: Mask.maskFrom {} r := rfl
  have hprecedence : lookupRules.precedence = [.alwaysValue, .mayBeAbsent] := rfl
  rw [RuleSet.evaluate, hmask, hprecedence]
  simp only [RuleSet.decideBy, hnone, hone, Rule.firstMatch, hmatches]

/-- A declaration whose initialiser reads an element by its number. -/
def readOf (ds : List Char) : Line := "let x=a".toList ++ '[' :: (ds ++ [']'])

section

variable {ds : List Char} (hds : ∀ c ∈ ds, Text.isDecimal c = true)

include hds in
theorem not_mem_readOf {c : Char} (hc : Text.isDecimal c = false) (hother : c ∉ readOf []) :
    c ∉ readOf ds := by
  intro hmem
  rcases List.mem_append.mp hmem with hleft | hright
  · exact hother (List.mem_append_left _ hleft)
  · rcases List.mem_cons.mp hright with rfl | hread
    · exact hother (by decide)
    · rcases List.mem_append.mp hread with hdigit | hlast
      · rw [hds c hdigit] at hc
        cases hc
      · exact hother (List.mem_append_right _ (List.mem_cons_of_mem _ hlast))

include hds in
/-- However its digits are chosen, a number that is too long ends the analysis of its line. -/
theorem overlong_readOf (hlong : Text.maxDigits < ds.length) :
    Classifier.Overlong { rules := lookupRules } (readOf ds) := by
  have hinit : ∀ c, c ∉ readOf ds → c ∉ 'a' :: '[' :: (ds ++ [']']) :=
    fun c hc hmem => hc (List.mem_append_right "let x=".toList hmem)
  have hfeed : '\n' ∉ '[' :: (ds ++ [']']) := fun hmem =>
    not_mem_readOf hds (by decide) (by decide) (List.mem_append_right _ hmem)
  obtain ⟨m, hm, hgroup⟩ := Classifier.exists_variableInit hfeed
  have hinitialiser : Classifier.initialiser (m.group 2) = 'a' :: '[' :: (ds ++ [']']) := by
    rw [hgroup]
    exact Classifier.initialiser_of_ends (by decide) (by decide) (by decide) ('[' :: ds)
  have halone := Classifier.alone_of_not_mem (not_mem_readOf hds (c := 'f') (by decide) (by decide))
    (not_mem_readOf hds (c := '>') (by decide) (by decide))
  refine ⟨halone, m, .ofRule lookupRule, hm, ?_⟩
  rw [hinitialiser]
  refine ⟨rfl, ?_, evaluate_lookupRules _, rfl, ?_⟩
  · have hquery := hinit '?' (not_mem_readOf hds (by decide) (by decide))
    have hbar := hinit '|' (not_mem_readOf hds (by decide) (by decide))
    unfold Classifier.hasFallback
    rw [Text.holds_of_not_mem List.mem_cons_self hquery,
      Text.holds_of_not_mem List.mem_cons_self hbar]
    rfl
  · cases ds with
    | nil => cases hlong
    | cons d ds =>
      obtain ⟨hd, hrest⟩ := List.forall_mem_cons.mp hds
      obtain ⟨i, hi, hnumber⟩ := Classifier.exists_indexed hd hrest
      unfold Classifier.readsTooFar
      rw [List.cons_append, hi, Option.any_some, hnumber, Text.readNumeral?, if_pos hlong]
      rfl

end

/-- A declaration that reads an element by a number of 4301 digits. -/
def longRead : Line := readOf (List.replicate 4301 '1')

theorem isDecimal_of_mem_ones : ∀ c ∈ List.replicate 4301 '1', Text.isDecimal c = true := by
  intro c hc
  rw [List.eq_of_mem_replicate hc]
  decide

theorem overlong_longRead : Source.isCommentLine longRead = false ∧
    Classifier.Overlong { rules := lookupRules } (Source.code longRead) := by
  have hslash : '/' ∉ longRead := not_mem_readOf isDecimal_of_mem_ones (by decide) (by decide)
  have hcomment : ∀ t, Source.isCommentLine ('l' :: t) = false := by
    intro t
    rw [Source.isCommentLine, Text.trimLeft_cons_of_not_blank t (by decide)]
    rfl
  refine ⟨hcomment _, ?_⟩
  rw [Source.code_of_not_mem hslash]
  refine overlong_readOf isDecimal_of_mem_ones ?_
  rw [List.length_replicate]
  decide

end Analysis

end NullAccess
