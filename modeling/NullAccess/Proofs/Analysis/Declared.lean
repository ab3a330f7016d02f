import NullAccess.Analysis
import NullAccess.Proofs.Pattern.Matches
import NullAccess.Proofs.Rule.Precedence

/-!
# What is declared, and where

A line is classified by itself: only a check of a length is looked for on the lines before it.  A
binding begins behind its declaration, and no name or path goes on there (`clear_of_classify`).  The
walk over the declarations of a file comes to its end unless a line reads an element by a number
that is too long (`ofLines_eq_error_iff`).
-/

namespace NullAccess

open Pattern

/-! ## Lines that cannot be classified -/

namespace Classifier

variable {k : Classifier} {code : Line} {n depth : Int} {lines : List Line} {f : Fault}
  {bs : List Binding} {b : Binding}

/-- Whether an initialiser reads an element by a number that is too long, or whose successor is. -/
def readsTooFar (rhs : List Char) : Bool :=
  (Declaration.indexed.matchStart? rhs).any fun m =>
    (Text.readNumeral? (m.group 2)).all fun index => !Text.isWritable (index + 1)

/-- The code of a line declares one variable and no function, the rules say that its initialiser may
give no value, and that reads an element by a number that is too long. -/
structure Overlong (k : Classifier) (code : Line) : Prop where
  alone : Declaration.forEachLoop.occursIn code = false ∧ Declaration.function.findAll code = [] ∧
    [Declaration.arrow, Declaration.arrowSingle].filterMap (·.find? code) = [] ∧
    Declaration.route.find? code = none
  initialised : ∃ m ruling, Declaration.variableInit.find? code = some m ∧
    (initialiser (m.group 2)).isEmpty = false ∧ hasFallback (initialiser (m.group 2)) = false ∧
    k.rules.evaluate (initialiser (m.group 2)) = .ok ruling ∧ ruling.verdict = .mayBeAbsent ∧
    readsTooFar (initialiser (m.group 2)) = true

theorem isCheckedRead_eq_error_iff {rhs : List Char} :
    isCheckedRead rhs n lines = .error f ↔ f = .longNumeral ∧ readsTooFar rhs = true := by
  have hfault : ∀ {r : Bool}, r = true →
      ((Except.error .longNumeral : Except Fault Bool) = .error f ↔ f = .longNumeral ∧ r = true) :=
    fun hr => ⟨fun h => ⟨(Except.error.inj h).symm, hr⟩, fun h => by rw [h.1]⟩
  have hnone : ∀ {r checked : Bool}, r = false →
      ((Except.ok checked : Except Fault Bool) = .error f ↔ f = .longNumeral ∧ r = true) :=
    fun hr => ⟨nofun, fun h => absurd h.2 (by rw [hr]; exact Bool.false_ne_true)⟩
  unfold isCheckedRead readsTooFar
  cases Declaration.indexed.matchStart? rhs with
  | none => exact hnone rfl
  | some m =>
    dsimp only [Option.any_some]
    cases Text.readNumeral? (m.group 2) with
    | none => exact hfault rfl
    | some index =>
      dsimp only [Option.all_some]
      cases Text.isWritable (index + 1) with
      | true => exact hnone rfl
      | false => exact hfault rfl

theorem ofVariable_eq_error_iff (hrules : k.rules.Compiles) {m : Match} :
    k.ofVariable m n depth lines = .error f ↔ f = .longNumeral ∧ ∃ ruling,
      (initialiser (m.group 2)).isEmpty = false ∧ hasFallback (initialiser (m.group 2)) = false ∧
      k.rules.evaluate (initialiser (m.group 2)) = .ok ruling ∧ ruling.verdict = .mayBeAbsent ∧
      readsTooFar (initialiser (m.group 2)) = true := by
  unfold ofVariable
  dsimp only
  generalize initialiser (m.group 2) = rhs
  obtain ⟨ruling, hruling⟩ := RuleSet.evaluate_ok hrules rhs
  rw [hruling]
  by_cases hgives : (rhs.isEmpty || hasFallback rhs) = true
  · simp only [hgives, if_true, reduceCtorEq, false_iff]
    rintro ⟨-, _, hempty, hfallback, -⟩
    simp [hempty, hfallback] at hgives
  · rw [if_neg hgives]
    simp only [Bool.or_eq_true, not_or, Bool.not_eq_true] at hgives
    by_cases hverdict : ruling.verdict = .mayBeAbsent
    · simp only [hverdict, if_true]
      constructor
      · intro h
        cases hchecked : isCheckedRead rhs n lines with
        | error g =>
          rw [hchecked] at h
          cases h
          obtain ⟨hf, hfar⟩ := isCheckedRead_eq_error_iff.mp hchecked
          exact ⟨hf, ruling, hgives.1, hgives.2, rfl, hverdict, hfar⟩
        | ok checked =>
          rw [hchecked] at h
          cases checked <;> cases h
      · rintro ⟨hf, -, -, -, -, -, hfar⟩
        rw [isCheckedRead_eq_error_iff.mpr ⟨hf, hfar⟩]
    · simp only [hverdict, if_false, reduceCtorEq, false_iff]
      rintro ⟨-, _, -, -, heq, habsent, -⟩
      cases heq
      exact hverdict habsent

theorem classify_eq_error_iff (hrules : k.rules.Compiles) :
    k.classify code n depth lines = .error f ↔ f = .longNumeral ∧ k.Overlong code := by
  unfold classify
  by_cases hloop : Declaration.forEachLoop.occursIn code = true
  · simp only [hloop, if_true, reduceCtorEq, false_iff]
    rintro ⟨-, hover⟩
    rw [hover.alone.1] at hloop
    cases hloop
  · rw [if_neg hloop]
    dsimp only
    by_cases hnone : ((Declaration.function.findAll code).isEmpty &&
        ([Declaration.arrow, Declaration.arrowSingle].filterMap (·.find? code)).isEmpty &&
        (Declaration.route.find? code).toList.isEmpty) = true
    · rw [if_pos hnone]
      simp only [Bool.and_eq_true, List.isEmpty_iff, Option.toList_eq_nil_iff] at hnone
      obtain ⟨⟨hfunctions, harrows⟩, hroute⟩ := hnone
      have halone := And.intro (Bool.eq_false_iff.mpr hloop)
        (And.intro hfunctions (And.intro harrows hroute))
      cases hvariable : Declaration.variableInit.find? code with
      | none =>
        simp only [reduceCtorEq, false_iff]
        rintro ⟨-, hover⟩
        obtain ⟨m, _, hm, -⟩ := hover.initialised
        rw [hvariable] at hm
        cases hm
      | some m =>
        dsimp only
        rw [ofVariable_eq_error_iff hrules]
        constructor
        · rintro ⟨hf, ruling, hfacts⟩
          exact ⟨hf, halone, m, ruling, hvariable, hfacts⟩
        · rintro ⟨hf, -, m', ruling, hm, hfacts⟩
          rw [hvariable, Option.some_inj] at hm
          subst hm
          exact ⟨hf, ruling, hfacts⟩
    · rw [if_neg hnone]
      simp only [reduceCtorEq, false_iff]
      rintro ⟨-, hover⟩
      obtain ⟨-, hfunctions, harrows, hroute⟩ := hover.alone
      rw [hfunctions, harrows, hroute] at hnone
      exact hnone rfl

/-! ## Where a binding begins -/

/-- Whether a column of some code is at its end or behind a character with which no path goes on. -/
def ClearAt (code : Line) (col : Nat) : Prop :=
  col ≤ code.length ∧
    (code.drop col = [] ∨ ∃ c, (code.take col).getLast? = some c ∧ Guard.isPathChar c = false)

theorem clearAt_of_last {a : Pattern} {m : Match} {c : Char} (h : IsMatch a code m)
    (hlast : m.last.before.head? = some c) (hc : Guard.isPathChar c = false) :
    ClearAt code m.stopCol := by
  have hwhole := h.whole_last
  refine ⟨?_, .inr ⟨c, ?_, hc⟩⟩
  · rw [← hwhole]
    exact column_le m.last
  · rw [← hwhole, Match.stopCol, take_column, List.getLast?_reverse]
    exact hlast

theorem last_of_params {a : Pattern} {i : Nat} {s u : Place}
    (h : u ∈ (a ++ Declaration.params i).ends s) :
    u.before.head? = some ')' := by
  obtain ⟨v, -, hu⟩ := mem_ends_seq.mp h
  exact before_of_mem_ends_chr hu

theorem last_of_lit_arrow {a : Pattern} {s u : Place} (h : u ∈ (a ++ lit "=>").ends s) :
    u.before.head? = some '>' := by
  obtain ⟨v, -, hu⟩ := mem_ends_seq.mp h
  obtain ⟨r, -, rfl⟩ := mem_ends_text.mp hu
  rfl

theorem clear_function {m : Match} (h : IsMatch Declaration.function code m) :
    ClearAt code m.stopCol :=
  clearAt_of_last h (last_of_params h.mem) (by decide)

theorem clear_arrow {m : Match}
    (h : IsMatch Declaration.arrow code m ∨ IsMatch Declaration.arrowSingle code m ∨
      IsMatch Declaration.route code m) : ClearAt code m.stopCol := by
  rcases h with h | h | h <;> exact clearAt_of_last h (last_of_lit_arrow h.mem) (by decide)

/-- The initialiser of a variable goes to the end of the line. -/
theorem clear_variable {m : Match} (h : IsMatch Declaration.variableInit code m)
    (hcode : '\n' ∉ code) : ClearAt code m.stopCol := by
  have hinLine : ∀ c ∈ m.first.whole, (c != '\n') = true := by
    intro c hc
    rw [h.whole] at hc
    have hne : c ≠ '\n' := fun heq => hcode (heq ▸ hc)
    simpa using hne
  have hafter : m.last.after = [] := after_of_some1 h.preferred hinLine
  refine ⟨?_, .inl ?_⟩
  · rw [← h.whole_last]
    exact column_le m.last
  · rw [← h.whole_last, Match.stopCol, drop_column, hafter]

theorem mem_of_mem_dedupe (h : b ∈ dedupe bs) : b ∈ bs := by
  suffices hfold : ∀ held, b ∈ bs.foldl keepLatest held → b ∈ held ∨ b ∈ bs by
    rcases hfold [] h with hnone | hmem
    · cases hnone
    · exact hmem
  clear h
  induction bs with
  | nil => exact fun held hb => .inl hb
  | cons first rest ih =>
    intro held hb
    rcases ih _ hb with hkept | hrest
    · unfold keepLatest at hkept
      split at hkept
      · obtain ⟨old, hold, heq⟩ := List.mem_map.mp hkept
        split at heq
        · exact .inr (heq ▸ List.mem_cons_self)
        · exact .inl (heq ▸ hold)
      · rcases List.mem_append.mp hkept with hheld | hlast
        · exact .inl hheld
        · exact .inr (List.mem_singleton.mp hlast ▸ List.mem_cons_self)
    · exact .inr (List.mem_cons_of_mem first hrest)

theorem origin_of_ofParams {function params line : List Char} {col : Nat}
    (h : b ∈ k.ofParams function params line n depth col) :
    b.originLine = n ∧ b.originCol = col := by
  unfold ofParams at h
  split at h
  · cases h
  · obtain ⟨p, -, rfl⟩ := List.mem_map.mp h
    exact ⟨rfl, rfl⟩

theorem origin_of_ofVariable {m : Match} (h : k.ofVariable m n depth lines = .ok bs) (hb : b ∈ bs) :
    b.originLine = n ∧ b.originCol = m.stopCol := by
  unfold ofVariable at h
  dsimp only at h
  split at h
  · cases h
    cases hb
  · split at h
    · cases h
    · split at h
      · split at h
        · cases h
        · cases h
          cases hb
        · cases h
          rw [List.mem_singleton.mp hb]
          exact ⟨rfl, rfl⟩
      · cases h
        cases hb

/-- A binding begins on its line, behind a declaration. -/
theorem clear_of_classify (h : k.classify code n depth lines = .ok bs) (hb : b ∈ bs) :
    b.originLine = n ∧ ∃ col : Nat, b.originCol = col ∧ ('\n' ∉ code → ClearAt code col) := by
  unfold classify at h
  split at h
  · cases h
    cases hb
  · dsimp only at h
    split at h
    · cases hvariable : Declaration.variableInit.find? code with
      | none =>
        rw [hvariable] at h
        cases h
        cases hb
      | some m =>
        rw [hvariable] at h
        obtain ⟨hline, hcol⟩ := origin_of_ofVariable h hb
        exact ⟨hline, m.stopCol, hcol, clear_variable (isMatch_of_find? hvariable)⟩
    · cases h
      rcases List.mem_append.mp (mem_of_mem_dedupe hb) with hparams | hroute
      · rcases List.mem_append.mp hparams with hfunction | harrow
        · obtain ⟨m, hm, hbm⟩ := List.mem_flatMap.mp hfunction
          split at hbm
          · cases hbm
          · obtain ⟨hline, hcol⟩ := origin_of_ofParams hbm
            exact ⟨hline, m.stopCol, hcol, fun _ => clear_function (isMatch_of_mem_findAll hm)⟩
        · obtain ⟨m, hm, hbm⟩ := List.mem_flatMap.mp harrow
          obtain ⟨a, ha, hfound⟩ := List.mem_filterMap.mp hm
          obtain ⟨hline, hcol⟩ := origin_of_ofParams hbm
          refine ⟨hline, m.stopCol, hcol, fun _ => clear_arrow ?_⟩
          simp only [List.mem_cons, List.not_mem_nil, or_false] at ha
          rcases ha with rfl | rfl
          · exact .inl (isMatch_of_find? hfound)
          · exact .inr (.inl (isMatch_of_find? hfound))
      · obtain ⟨m, hm, hbm⟩ := List.mem_flatMap.mp hroute
        obtain ⟨hline, hcol⟩ := origin_of_ofParams hbm
        have hfound : Declaration.route.find? code = some m := Option.mem_toList.mp hm
        exact ⟨hline, m.stopCol, hcol, fun _ => clear_arrow (.inr (.inr (isMatch_of_find? hfound)))⟩

end Classifier

/-! ## The declarations of a file -/

namespace Declarations

variable {k : Classifier} {all lines : List Line} {raw : Line} {d d' : Declarations} {n : Int}
  {f : Fault} {b : Binding}

theorem readLine_of_comment (h : Source.isCommentLine raw = true) :
    d.readLine k all raw n = .ok { d with scope := d.scope.readLine raw n } := by
  unfold readLine
  rw [if_pos h]

/-- What one line adds. -/
theorem readLine_eq_ok (h : d.readLine k all raw n = .ok d') :
    ∃ found, d'.declared = d.declared ++ found ∧
      d'.scope = found.foldl Scope.add (d.scope.readLine raw n) ∧
      (found = [] ∨ Source.isCommentLine raw = false ∧
        k.classify (Source.code raw) n (d.scope.readLine raw n).depth all = .ok found) := by
  cases hcomment : Source.isCommentLine raw with
  | true =>
    rw [readLine_of_comment hcomment] at h
    cases h
    exact ⟨[], (List.append_nil _).symm, rfl, .inl rfl⟩
  | false =>
    unfold readLine at h
    rw [hcomment, if_neg Bool.false_ne_true] at h
    cases hfound : k.classify (Source.code raw) n (d.scope.readLine raw n).depth all with
    | error e =>
      rw [hfound] at h
      cases h
    | ok found =>
      rw [hfound] at h
      cases h
      exact ⟨found, rfl, rfl, .inr ⟨rfl, rfl⟩⟩

theorem readLine_eq_error_iff (hrules : k.rules.Compiles) :
    d.readLine k all raw n = .error f ↔
      f = .longNumeral ∧ Source.isCommentLine raw = false ∧ k.Overlong (Source.code raw) := by
  cases hcomment : Source.isCommentLine raw with
  | true => simp [readLine_of_comment hcomment]
  | false =>
    unfold readLine
    rw [hcomment, if_neg Bool.false_ne_true]
    have hiff : k.classify (Source.code raw) n (d.scope.readLine raw n).depth all = .error f ↔ _ :=
      Classifier.classify_eq_error_iff hrules
    simp only [true_and, ← hiff]
    cases k.classify (Source.code raw) n (d.scope.readLine raw n).depth all <;> simp

theorem readLines_eq_error_iff (hrules : k.rules.Compiles) :
    readLines k all d n lines = .error f ↔ f = .longNumeral ∧
      ∃ raw ∈ lines, Source.isCommentLine raw = false ∧ k.Overlong (Source.code raw) := by
  induction lines generalizing d n with
  | nil => simp [readLines]
  | cons raw rest ih =>
    have hfirst : ∀ {g}, d.readLine k all raw n = .error g ↔ _ := readLine_eq_error_iff hrules
    simp only [readLines, List.mem_cons, exists_eq_or_imp]
    cases hline : d.readLine k all raw n with
    | error g =>
      obtain ⟨rfl, hover⟩ := hfirst.mp hline
      simp only [Except.error.injEq]
      exact ⟨fun h => ⟨h.symm, .inl hover⟩, fun h => h.1.symm⟩
    | ok d' =>
      have hnot : ¬ (Source.isCommentLine raw = false ∧ k.Overlong (Source.code raw)) := by
        intro hover
        rw [hfirst.mpr ⟨rfl, hover⟩] at hline
        cases hline
      dsimp only
      rw [ih]
      simp only [hnot, false_or]

theorem ofLines_eq_error_iff (hrules : k.rules.Compiles) :
    ofLines k lines = .error f ↔ f = .longNumeral ∧
      ∃ raw ∈ lines, Source.isCommentLine raw = false ∧ k.Overlong (Source.code raw) :=
  readLines_eq_error_iff hrules

theorem readLines_cons_eq_ok {rest : List Line} (h : readLines k all d n (raw :: rest) = .ok d') :
    ∃ d₁, d.readLine k all raw n = .ok d₁ ∧ readLines k all d₁ (n + 1) rest = .ok d' := by
  rw [readLines] at h
  cases hfirst : d.readLine k all raw n with
  | error e =>
    rw [hfirst] at h
    cases h
  | ok d₁ =>
    rw [hfirst] at h
    exact ⟨d₁, rfl, h⟩

/-- Where a binding comes from that is declared on the lines from line `n` on. -/
def DeclaredAt (lines : List Line) (n : Int) (b : Binding) : Prop :=
  ∃ (i : Nat) (raw : Line), lines[i]? = some raw ∧ Source.isCommentLine raw = false ∧
    b.originLine = n + i ∧ ∃ col : Nat, b.originCol = col ∧
      ('\n' ∉ Source.code raw → Classifier.ClearAt (Source.code raw) col)

theorem declared_of_readLines (h : readLines k all d n lines = .ok d') :
    ∃ found, d'.declared = d.declared ++ found ∧ ∀ b ∈ found, DeclaredAt lines n b := by
  induction lines generalizing d n with
  | nil =>
    cases h
    exact ⟨[], (List.append_nil _).symm, List.forall_mem_nil _⟩
  | cons raw rest ih =>
    obtain ⟨d₁, hfirst, hrest⟩ := readLines_cons_eq_ok h
    obtain ⟨found, hfound, -, horigin⟩ := readLine_eq_ok hfirst
    obtain ⟨later, hlater, hlaterOrigin⟩ := ih hrest
    refine ⟨found ++ later, by rw [hlater, hfound, List.append_assoc], fun b hb => ?_⟩
    rcases List.mem_append.mp hb with hb | hb
    · rcases horigin with rfl | ⟨hcomment, hclassify⟩
      · cases hb
      · obtain ⟨hline, hcol⟩ := Classifier.clear_of_classify hclassify hb
        exact ⟨0, raw, rfl, hcomment, by rw [hline]; simp, hcol⟩
    · obtain ⟨i, raw', hraw, hcomment, hline, hcol⟩ := hlaterOrigin b hb
      refine ⟨i + 1, raw', hraw, hcomment, ?_, hcol⟩
      rw [hline]
      omega

theorem declaredAt_of_ofLines (h : ofLines k lines = .ok d) (hb : b ∈ d.declared) :
    DeclaredAt lines 1 b := by
  obtain ⟨found, hfound, horigin⟩ := declared_of_readLines h
  rw [hfound] at hb
  exact horigin b hb

end Declarations

end NullAccess
