import Mathlib.Data.List.Basic
import NullAccess.Rule.Evaluate

/-!
# Which rule decides

Rules are tried verdict by verdict, and within a verdict by priority.  Over rules that compile the
walk is a search: it finds the first candidate of the first verdict that has one (`decideBy_eq`).

What it finds can be said without the walk.  A rule at a position of the set applies to a text when
its verdict is listed and its pattern occurs there.  Of the rules that apply, the one decides that
comes before all others: by the first place at which its verdict is listed, then by its priority,
then by its position (`ruling_is_of_first_rule`).  The positions are what a sort by priority keeps
of the order of the set, so the candidates are followed with them (`numbered`).
-/

namespace NullAccess

namespace Rule

/-- Whether the rule's pattern has a reading and occurs in a text. -/
def occursIn (r : Rule) (t : List Char) : Bool :=
  (Pattern.ofString r.pattern).toOption.any (·.occursIn t)

theorem firstMatch_eq {rs : List Rule} (h : ∀ r ∈ rs, (Pattern.ofString r.pattern).isOk)
    (t : List Char) : firstMatch t rs = .ok (rs.find? (·.occursIn t)) := by
  induction rs with
  | nil => rfl
  | cons r rest ih =>
    obtain ⟨hfirst, hrest⟩ := List.forall_mem_cons.mp h
    rw [firstMatch, matches?]
    cases hpattern : Pattern.ofString r.pattern with
    | error flaw =>
      rw [hpattern] at hfirst
      cases hfirst
    | ok p =>
      have hoccurs : r.occursIn t = p.occursIn t := by rw [occursIn, hpattern]; rfl
      rw [List.find?_cons, hoccurs]
      dsimp only
      cases p.occursIn t with
      | true => rfl
      | false => exact ih hrest

end Rule

namespace RuleSet

variable {rules : RuleSet} {t : List Char} {v : Verdict} {r q : Rule} {i j : Nat}

/-! ## The walk as a search -/

theorem decideBy_eq (h : rules.Compiles) (t : List Char) (vs : List Verdict) :
    rules.decideBy t vs =
      .ok ((vs.findSome? fun v => (rules.candidates v).find? (·.occursIn t)).elim .unknown
        .ofRule) := by
  induction vs with
  | nil => rfl
  | cons v rest ih =>
    have hcandidates : ∀ r ∈ rules.candidates v, (Pattern.ofString r.pattern).isOk := by
      intro r hr
      rw [candidates, List.mem_mergeSort] at hr
      exact h r (List.mem_filter.mp hr).1
    rw [decideBy, Rule.firstMatch_eq hcandidates, List.findSome?_cons]
    cases (rules.candidates v).find? (·.occursIn t) with
    | none => exact ih
    | some r => rfl

theorem evaluate_ok (h : rules.Compiles) (rhs : List Char) :
    ∃ ruling, rules.evaluate rhs = .ok ruling := ⟨_, decideBy_eq h _ _⟩

/-! ## Candidates with their positions -/

/-- The candidates of a verdict, each with its position in the set. -/
def numbered (rules : RuleSet) (v : Verdict) : List (Rule × Nat) :=
  (rules.rules.zipIdx.filter (·.1.verdict == v)).mergeSort fun a b =>
    decide (b.1.priority ≤ a.1.priority)

theorem map_fst_numbered (rules : RuleSet) (v : Verdict) :
    (rules.numbered v).map Prod.fst = rules.candidates v := by
  have hfilter : (rules.rules.zipIdx.filter (·.1.verdict == v)).map Prod.fst =
      rules.rules.filter (·.verdict == v) := by
    conv_rhs => rw [← List.zipIdx_map_fst 0 rules.rules, List.filter_map]
    rfl
  rw [candidates, ← hfilter, numbered]
  exact List.map_mergeSort fun _ _ _ _ => rfl

theorem mem_numbered_iff : (r, i) ∈ rules.numbered v ↔
    rules.rules[i]? = some r ∧ r.verdict = v := by
  rw [numbered, List.mem_mergeSort, List.mem_filter, List.mem_zipIdx_iff_getElem?, beq_iff_eq]

/-- A sort keeps apart what it cannot tell apart: two elements of one rank stay in their order. -/
theorem pairwise_mergeSort_of_pairwise {α : Type} {le : α → α → Bool} {R : α → α → Prop}
    (trans : ∀ a b c, le a b → le b c → le a c) (total : ∀ a b, le a b || le b a) {l : List α}
    (h : l.Pairwise R) : (l.mergeSort le).Pairwise fun a b => le b a → R a b := by
  induction l with
  | nil => simp
  | cons a rest ih =>
    -- The new element goes before those of its rank and below, which all stood behind it.
    obtain ⟨front, back, hsorted, hrest, hfront⟩ := List.mergeSort_cons trans total a rest
    obtain ⟨ha, hpairs⟩ := List.pairwise_cons.mp h
    have hkept := ih hpairs
    rw [hrest, List.pairwise_append] at hkept
    obtain ⟨hfronts, hbacks, hacross⟩ := hkept
    have hmem : ∀ b ∈ back, b ∈ rest := by
      intro b hb
      have hin : b ∈ rest.mergeSort le := by
        rw [hrest]
        exact List.mem_append_right front hb
      exact List.mem_mergeSort.mp hin
    rw [hsorted, List.pairwise_append]
    refine ⟨hfronts, List.pairwise_cons.mpr ⟨fun b hb _ => ha b (hmem b hb), hbacks⟩, ?_⟩
    intro x hx y hy hle
    rcases List.mem_cons.mp hy with rfl | hback
    · have hnot := hfront x hx
      simp [hle] at hnot
    · exact hacross x hx y hback hle

/-- Of two candidates the one of higher priority goes first, and of equal ones the one that stands
first. -/
def Ahead (a b : Rule × Nat) : Prop :=
  b.1.priority < a.1.priority ∨ b.1.priority = a.1.priority ∧ a.2 < b.2

theorem pairwise_numbered (rules : RuleSet) (v : Verdict) : (rules.numbered v).Pairwise Ahead := by
  have hplaces : (rules.rules.zipIdx.filter (·.1.verdict == v)).Pairwise fun a b => a.2 < b.2 := by
    apply List.Pairwise.filter
    rw [← List.pairwise_map, List.zipIdx_map_snd]
    exact List.pairwise_lt_range'
  have htrans : ∀ a b c : Rule × Nat, decide (b.1.priority ≤ a.1.priority) →
      decide (c.1.priority ≤ b.1.priority) → decide (c.1.priority ≤ a.1.priority) := by
    intro a b c hab hbc
    rw [decide_eq_true_eq] at *
    omega
  have htotal : ∀ a b : Rule × Nat,
      decide (b.1.priority ≤ a.1.priority) || decide (a.1.priority ≤ b.1.priority) := by
    intro a b
    simp only [Bool.or_eq_true, decide_eq_true_eq]
    omega
  have hranks := List.pairwise_mergeSort htrans htotal
    (rules.rules.zipIdx.filter (·.1.verdict == v))
  have hkept := pairwise_mergeSort_of_pairwise htrans htotal hplaces
  apply (hranks.and hkept).imp
  intro a b hab
  rw [decide_eq_true_eq, decide_eq_true_eq] at hab
  rcases Int.lt_or_eq_of_le hab.1 with hlt | heq
  · exact .inl hlt
  · exact .inr ⟨heq, hab.2 (by omega)⟩

/-! ## The rule that decides -/

/-- The rule at a position applies to a text: its verdict is listed, and its pattern occurs
there. -/
structure Applies (rules : RuleSet) (t : List Char) (i : Nat) (r : Rule) : Prop where
  place : rules.rules[i]? = some r
  listed : r.verdict ∈ rules.precedence
  occurs : r.occursIn t = true

/-- One rule comes before another: its verdict is listed earlier, or its verdict is the same and it
goes ahead. -/
def Before (rules : RuleSet) (a b : Rule × Nat) : Prop :=
  rules.precedence.idxOf a.1.verdict < rules.precedence.idxOf b.1.verdict ∨
    rules.precedence.idxOf a.1.verdict = rules.precedence.idxOf b.1.verdict ∧ Ahead a b

instance (a b : Rule × Nat) : Decidable (Ahead a b) := inferInstanceAs (Decidable (_ ∨ _))

instance (a b : Rule × Nat) : Decidable (rules.Before a b) := inferInstanceAs (Decidable (_ ∨ _))

/-- The rule at a position decides: it applies, and before all others that do. -/
structure Decides (rules : RuleSet) (t : List Char) (i : Nat) (r : Rule) : Prop where
  applies : rules.Applies t i r
  first : ∀ j q, rules.Applies t j q → j = i ∨ rules.Before (r, i) (q, j)

theorem Before.not_symm {a b : Rule × Nat} (h : rules.Before a b) : ¬ rules.Before b a := by
  unfold Before Ahead at *
  omega

theorem Decides.unique (hr : rules.Decides t i r) (hq : rules.Decides t j q) : r = q := by
  have hsame : j = i := by
    rcases hr.first j q hq.applies with heq | hbefore
    · exact heq
    · rcases hq.first i r hr.applies with heq | hafter
      · exact heq.symm
      · exact absurd hafter hbefore.not_symm
  have hplace := hq.applies.place
  rw [hsame, hr.applies.place] at hplace
  exact Option.some.inj hplace

theorem occurs_none_iff : (rules.candidates v).find? (·.occursIn t) = none ↔
    ∀ (i : Nat) (r : Rule), rules.rules[i]? = some r → r.verdict = v → r.occursIn t = false := by
  rw [List.find?_eq_none, ← map_fst_numbered, List.forall_mem_map, Prod.forall]
  constructor
  · intro h i r hplace hverdict
    exact Bool.eq_false_iff.mpr (h r i (mem_numbered_iff.mpr ⟨hplace, hverdict⟩))
  · intro h r i hmem
    obtain ⟨hplace, hverdict⟩ := mem_numbered_iff.mp hmem
    exact Bool.eq_false_iff.mp (h i r hplace hverdict)

/-- The first candidate of a verdict whose pattern occurs is ahead of the others of that verdict. -/
theorem exists_ahead (h : (rules.candidates v).find? (·.occursIn t) = some r) :
    ∃ i, rules.rules[i]? = some r ∧ r.verdict = v ∧ r.occursIn t = true ∧
      ∀ (j : Nat) (q : Rule), rules.rules[j]? = some q → q.verdict = v → q.occursIn t = true →
        j = i ∨ Ahead (r, i) (q, j) := by
  rw [← map_fst_numbered, List.find?_map, Option.map_eq_some_iff] at h
  obtain ⟨⟨r', i⟩, hfind, rfl⟩ := h
  obtain ⟨hoccurs, front, back, hsplit, hfront⟩ := List.find?_eq_some_iff_append.mp hfind
  have hmem : (r', i) ∈ rules.numbered v := by rw [hsplit]; simp
  obtain ⟨hplace, hverdict⟩ := mem_numbered_iff.mp hmem
  refine ⟨i, hplace, hverdict, hoccurs, fun j q hq hverdict' hoccurs' => ?_⟩
  have hother : (q, j) ∈ rules.numbered v := mem_numbered_iff.mpr ⟨hq, hverdict'⟩
  have hpairs := pairwise_numbered rules v
  rw [hsplit] at hother hpairs
  rcases List.mem_append.mp hother with hearlier | hlater
  · have hnot := hfront _ hearlier
    simp [hoccurs'] at hnot
  · rcases List.mem_cons.mp hlater with heq | hback
    · exact .inl (Prod.mk.inj heq).2
    · exact .inr (List.rel_of_pairwise_cons (List.pairwise_append.mp hpairs).2.1 hback)

theorem decides_of_findSome? (h : (rules.precedence.findSome? fun v =>
    (rules.candidates v).find? (·.occursIn t)) = some r) : ∃ i, rules.Decides t i r := by
  obtain ⟨front, v, back, hsplit, hfound, hfront⟩ := List.findSome?_eq_some_iff.mp h
  obtain ⟨i, hplace, rfl, hoccurs, hahead⟩ := exists_ahead hfound
  have hlisted : r.verdict ∈ rules.precedence := by rw [hsplit]; simp
  -- A verdict before the one that was found has no rule that applies.
  have hearlier : ∀ j q, rules.Applies t j q → q.verdict ∉ front := by
    intro j q hq hmem
    have hnone := occurs_none_iff.mp (hfront q.verdict hmem) j q hq.place rfl
    rw [hq.occurs] at hnone
    cases hnone
  have happlies : rules.Applies t i r := ⟨hplace, hlisted, hoccurs⟩
  have hindex : ∀ q : Rule, q.verdict ∉ front → rules.precedence.idxOf q.verdict =
      front.length + (r.verdict :: back).idxOf q.verdict := by
    intro q hq
    rw [hsplit, List.idxOf_append_of_notMem hq]
  refine ⟨i, happlies, fun j q hq => ?_⟩
  have hr := hindex r (hearlier i r happlies)
  have hq' := hindex q (hearlier j q hq)
  rw [List.idxOf_cons_self] at hr
  by_cases hverdict : q.verdict = r.verdict
  · rcases hahead j q hq.place hverdict hq.occurs with heq | hbefore
    · exact .inl heq
    · exact .inr (.inr ⟨by rw [hverdict], hbefore⟩)
  · have hlater : 0 < (r.verdict :: back).idxOf q.verdict := by
      rw [List.idxOf_cons_ne _ (Ne.symm hverdict)]
      omega
    have hsooner : rules.precedence.idxOf r.verdict < rules.precedence.idxOf q.verdict := by omega
    exact .inr (.inl hsooner)

theorem not_applies_of_findSome? (h : (rules.precedence.findSome? fun v =>
    (rules.candidates v).find? (·.occursIn t)) = none) : ¬ rules.Applies t i r := by
  intro hr
  have hnone := occurs_none_iff.mp (List.findSome?_eq_none_iff.mp h _ hr.listed) i r hr.place rfl
  rw [hr.occurs] at hnone
  cases hnone

/-- Under rules that compile the ruling is that of the rule that decides, which there is as soon as
one applies; it is the default one exactly when none does. -/
theorem ruling_is_of_first_rule (hrules : rules.Compiles) (rhs : List Char) :
    (∀ i r, rules.Decides (Mask.mask rhs) i r → rules.evaluate rhs = .ok (.ofRule r)) ∧
      ((∃ i r, rules.Applies (Mask.mask rhs) i r) → ∃ i r, rules.Decides (Mask.mask rhs) i r) ∧
      (rules.evaluate rhs = .ok .unknown ↔ ∀ i r, ¬ rules.Applies (Mask.mask rhs) i r) := by
  have hruling := decideBy_eq hrules (Mask.mask rhs) rules.precedence
  rw [evaluate, hruling]
  cases hfound : rules.precedence.findSome? fun v =>
      (rules.candidates v).find? (·.occursIn (Mask.mask rhs)) with
  | none =>
    have hnone : ∀ i r, ¬ rules.Applies (Mask.mask rhs) i r := fun _ _ =>
      not_applies_of_findSome? hfound
    exact ⟨fun i r hr => absurd hr.applies (hnone i r), fun ⟨i, r, hr⟩ => absurd hr (hnone i r),
      fun _ => hnone, fun _ => rfl⟩
  | some r =>
    obtain ⟨i, hr⟩ := decides_of_findSome? hfound
    refine ⟨fun j q hq => ?_, fun _ => ⟨i, r, hr⟩, ?_, ?_⟩
    · rw [hr.unique hq]
      rfl
    · intro hdefault
      have hflag := congrArg Ruling.isDefault (Except.ok.inj hdefault)
      cases hflag
    · exact fun hnone => absurd hr.applies (hnone i r)

/-- A rule that ties with another one at the head of its verdict. -/
def keyedRule : Rule :=
  { id := "keyed", pattern := "a", verdict := .mayBeAbsent, shape := .keyedLookup, priority := -2 }

/-- Five rules for one pattern, with a verdict that is listed twice and one that is not listed. -/
def mixedRules : RuleSet where
  precedence := [.mayBeAbsent, .alwaysValue, .mayBeAbsent]
  rules :=
    [{ keyedRule with id := "unlisted", verdict := .unknown, priority := 9 },
     { keyedRule with id := "late", verdict := .alwaysValue, priority := 7 },
     { keyedRule with id := "low", priority := -3 }, keyedRule, { keyedRule with id := "tied" }]

/-- Neither the highest priority nor the first position decides, for the verdict comes first. -/
theorem ruling_is_of_first_rule_sample :
    mixedRules.Compiles ∧ mixedRules.Decides (Mask.mask "a(b)".toList) 3 keyedRule ∧
      mixedRules.evaluate "a(b)".toList = .ok (.ofRule keyedRule) := by
  have hrules : mixedRules.Compiles := by
    intro r hr
    have hpattern : r.pattern = "a" := by
      revert r
      decide
    rw [hpattern]
    rfl
  have hdecides : mixedRules.Decides (Mask.mask "a(b)".toList) 3 keyedRule := by
    refine ⟨⟨rfl, by decide, rfl⟩, fun j q hq => ?_⟩
    have hbefore : ∀ a ∈ mixedRules.rules.zipIdx, a.1.verdict ∈ mixedRules.precedence →
        a.2 = 3 ∨ mixedRules.Before (keyedRule, 3) a := by decide
    exact hbefore (q, j) (List.mem_zipIdx_iff_getElem?.mpr hq.place) hq.listed
  exact ⟨hrules, hdecides, (ruling_is_of_first_rule hrules "a(b)".toList).1 3 keyedRule hdecides⟩

end RuleSet

end NullAccess
