import NullAccess.Access
import NullAccess.Proofs.Pattern.Searched

/-!
# The conditions of a text

A condition stands behind the parenthesis of an `if` or a `while` and ends with the parenthesis that
closes it.  Which one that is, is found by counting; a condition that nothing closes goes on to the
end of the text (`IsCondition`).  The spans of a text are its conditions, each once and from left to
right (`mem_conditionSpans_iff`, `pairwise_conditionSpans`), because no condition begins in the
words that begin another one (`Head.apart`).
-/

namespace NullAccess.Access

open Text Pattern

variable {t r x w v x' w' v' r' : List Char} {a b c k depth : Nat} {s u : Place} {m : Match}

/-! ## Partners of parentheses -/

/-- The parenthesis at a column closes the last of some open ones: before it, no column closed as
many as were open. -/
structure ClosesAt (depth : Nat) (r : List Char) (k : Nat) : Prop where
  here : r[k]? = some ')'
  closes : (r.take k).count ')' + 1 = (r.take k).count '(' + depth
  remain : ∀ j ≤ k, (r.take j).count ')' < (r.take j).count '(' + depth

/-- The number of parentheses that are open behind a character. -/
def openBehind (depth : Nat) (c : Char) : Nat :=
  if c = '(' then depth + 1 else if c = ')' then depth - 1 else depth

theorem closeLength_cons (depth : Nat) (c : Char) (r : List Char) :
    closeLength (depth + 1) (c :: r) = 1 + closeLength (openBehind (depth + 1) c) r := rfl

/-- What is counted up to a column behind the first character. -/
theorem counts_cons (depth : Nat) (c : Char) (q : List Char) :
    ((c :: q).count ')' < (c :: q).count '(' + (depth + 1) ↔
      q.count ')' < q.count '(' + openBehind (depth + 1) c) ∧
    ((c :: q).count ')' + 1 = (c :: q).count '(' + (depth + 1) ↔
      q.count ')' + 1 = q.count '(' + openBehind (depth + 1) c) := by
  unfold openBehind
  by_cases hopen : c = '('
  · subst hopen
    simp only [List.count_cons, if_true, show ('(' == ')') = false from rfl, beq_self_eq_true,
      Bool.false_eq_true, if_false]
    omega
  · by_cases hclose : c = ')'
    · subst hclose
      simp only [List.count_cons, if_true, show (')' == '(') = false from rfl, beq_self_eq_true,
        Bool.false_eq_true, if_false, if_neg hopen]
      omega
    · rw [List.count_cons_of_ne hopen, List.count_cons_of_ne hclose, if_neg hopen, if_neg hclose]
      exact ⟨Iff.rfl, Iff.rfl⟩

theorem closesAt_zero_iff {d : Char} : ClosesAt (depth + 1) (d :: r) 0 ↔ d = ')' ∧ depth = 0 := by
  constructor
  · intro h
    have hcloses := h.closes
    simp only [List.take_zero, List.count_nil] at hcloses
    exact ⟨Option.some_inj.mp h.here, by omega⟩
  · rintro ⟨rfl, rfl⟩
    refine ⟨rfl, rfl, fun j hj => ?_⟩
    rw [Nat.le_zero.mp hj]
    exact Nat.zero_lt_one

theorem closesAt_succ_iff {d : Char} :
    ClosesAt (depth + 1) (d :: r) (k + 1) ↔ ClosesAt (openBehind (depth + 1) d) r k := by
  constructor
  · rintro ⟨hhere, hcloses, hremain⟩
    refine ⟨hhere, (counts_cons depth d _).2.mp hcloses, fun j hj => ?_⟩
    exact (counts_cons depth d _).1.mp (hremain (j + 1) (Nat.succ_le_succ hj))
  · rintro ⟨hhere, hcloses, hremain⟩
    refine ⟨hhere, (counts_cons depth d _).2.mpr hcloses, fun j hj => ?_⟩
    cases j with
    | zero => simp
    | succ j => exact (counts_cons depth d _).1.mpr (hremain j (Nat.le_of_succ_le_succ hj))

/-- The length that a scan for the closing parenthesis passes over. -/
theorem closeLength_cases (depth : Nat) (r : List Char) :
    (∃ k, ClosesAt (depth + 1) r k ∧ closeLength (depth + 1) r = k + 1) ∨
      (∀ k, ¬ ClosesAt (depth + 1) r k) ∧ closeLength (depth + 1) r = r.length := by
  induction r generalizing depth with
  | nil => exact .inr ⟨fun k h => Option.some_ne_none ')' h.here.symm, rfl⟩
  | cons d r ih =>
    rw [closeLength_cons]
    cases hopen : openBehind (depth + 1) d with
    | zero =>
      -- Only a parenthesis that closes the one that was open leaves none.
      have hzero : d = ')' ∧ depth = 0 := by
        unfold openBehind at hopen
        split at hopen
        · omega
        · split at hopen
          · exact ⟨‹_›, by omega⟩
          · omega
      exact .inl ⟨0, closesAt_zero_iff.mpr hzero, by rw [closeLength]⟩
    | succ next =>
      have hnot : ¬ ClosesAt (depth + 1) (d :: r) 0 := by
        rw [closesAt_zero_iff]
        rintro ⟨rfl, rfl⟩
        cases hopen
      rcases ih next with ⟨k, hk, hlength⟩ | ⟨hnone, hlength⟩
      · refine .inl ⟨k + 1, closesAt_succ_iff.mpr (hopen ▸ hk), ?_⟩
        rw [hlength, Nat.add_comm]
      · refine .inr ⟨fun k hk => ?_, by rw [hlength, List.length_cons, Nat.add_comm]⟩
        cases k with
        | zero => exact hnot hk
        | succ k => exact hnone k (hopen ▸ closesAt_succ_iff.mp hk)

theorem ClosesAt.not_lt {j : Nat} (hk : ClosesAt depth r k) (hj : ClosesAt depth r j) :
    ¬ k < j := by
  intro hlt
  have hremain := hj.remain (k + 1) hlt
  have hcloses := hk.closes
  rw [List.take_add_one, hk.here, List.count_append, List.count_append] at hremain
  simp only [Option.toList_some, List.count_singleton, show (')' == '(') = false from rfl,
    beq_self_eq_true, Bool.false_eq_true, if_true, if_false] at hremain
  omega

theorem ClosesAt.unique {j : Nat} (hk : ClosesAt depth r k) (hj : ClosesAt depth r j) : k = j :=
  Nat.le_antisymm (Nat.le_of_not_lt (hj.not_lt hk)) (Nat.le_of_not_lt (hk.not_lt hj))

/-! ## Conditions -/

/-- What stands before and behind the parenthesis that opens a condition: a word that no longer word
ends in, and blanks. -/
structure Head (t x w v r : List Char) : Prop where
  text : t = x ++ (w ++ (v ++ '(' :: r))
  word : w = "if".toList ∨ w = "while".toList
  blanks : IsPad v
  border : ∀ d, x.getLast? = some d → isWord d = false

/-- The text from column `a` to column `b` is a condition, with the parenthesis that closes it if
there is one. -/
structure IsCondition (t : List Char) (a b : Nat) : Prop where
  opens : ∃ x w v r, Head t x w v r ∧ a = x.length + w.length + v.length + 1
  ends : (∃ k, ClosesAt 1 (t.drop a) k ∧ b = a + k + 1) ∨
    (∀ k, ¬ ClosesAt 1 (t.drop a) k) ∧ b = t.length

namespace Head

theorem ne_nil (h : Head t x w v r) : w ≠ [] := by
  rcases h.word with rfl | rfl <;> decide

theorem isWord_of_mem (h : Head t x w v r) {d : Char} (hd : d ∈ w) : isWord d = true := by
  have hall : ∀ d ∈ "if".toList ++ "while".toList, isWord d = true :=
    List.all_eq_true.mp (by decide)
  rcases h.word with rfl | rfl
  · exact hall d (List.mem_append_left _ hd)
  · exact hall d (List.mem_append_right _ hd)

/-- Neither a blank nor a parenthesis begins the word. -/
theorem head_ne (h : Head t x w v r) {d : Char} {q p : List Char}
    (hd : isBlank d = true ∨ d = '(') :
    d :: q ≠ w ++ p := by
  rcases h.word with rfl | rfl <;> intro heq <;> obtain rfl := (List.cons.inj heq).1 <;>
    revert hd <;> decide

/-- No condition begins between the beginning of another one and its parenthesis. -/
theorem apart (h : Head t x w v r) (h' : Head t x' w' v' r') (hlt : x.length < x'.length) :
    x.length + w.length + v.length + 1 ≤ x'.length := by
  obtain ⟨y, rfl⟩ : ∃ y, x' = x ++ y :=
    (List.prefix_of_prefix_length_le ⟨_, h.text.symm⟩ ⟨_, h'.text.symm⟩ (Nat.le_of_lt hlt)).imp
      fun _ => Eq.symm
  have hrest : w ++ (v ++ '(' :: r) = y ++ (w' ++ (v' ++ '(' :: r')) := by
    have heq := h.text.symm.trans h'.text
    rwa [List.append_assoc, List.append_cancel_left_eq] at heq
  rw [List.length_append] at hlt ⊢
  have hy : y ≠ [] := by
    rintro rfl
    exact absurd hlt (by simp)
  rcases List.append_eq_append_iff.mp hrest with ⟨z, rfl, hz⟩ | ⟨z, hw, -⟩
  · rcases List.append_eq_append_iff.mp hz with ⟨q, rfl, hq⟩ | ⟨q, rfl, hq⟩
    · cases q with
      | nil => exact absurd (by simpa using hq) (h'.head_ne (.inr rfl))
      | cons d q =>
        rw [List.length_append, List.length_append, List.length_cons]
        omega
    · cases q with
      | nil => exact absurd (by simpa using hq.symm) (h'.head_ne (.inr rfl))
      | cons d q =>
        exact absurd hq.symm (h'.head_ne (.inl (h.blanks d (by simp))))
  · obtain ⟨q, d, rfl⟩ := (List.eq_nil_or_concat y).resolve_left hy
    have hborder := h'.border d (by simp)
    rw [h.isWord_of_mem (by simp [hw])] at hborder
    cases hborder

theorem word_eq (h : Head t x w v r) (h' : Head t x' w' v' r')
    (hrest : w ++ (v ++ '(' :: r) = w' ++ (v' ++ '(' :: r')) : w = w' := by
  rcases h.word with rfl | rfl <;> rcases h'.word with rfl | rfl
  · rfl
  · cases hrest
  · cases hrest
  · rfl

/-- What stands at a column begins one condition at most. -/
theorem unique (h : Head t x w v r) (h' : Head t x' w' v' r') (hlength : x.length = x'.length) :
    w = w' ∧ v = v' ∧ r = r' := by
  have heq := h.text.symm.trans h'.text
  obtain ⟨rfl, hrest⟩ := List.append_inj heq hlength
  obtain rfl := h.word_eq h' hrest
  have hblanks := List.append_cancel_left hrest
  rcases List.append_eq_append_iff.mp hblanks with ⟨q, hv, hq⟩ | ⟨q, hv, hq⟩
  · cases q with
    | nil => exact ⟨rfl, by simpa using hv.symm, (List.cons.inj hq).2⟩
    | cons d q =>
      obtain rfl := (List.cons.inj hq).1
      cases h'.blanks '(' (by simp [hv])
  · cases q with
    | nil => exact ⟨rfl, by simpa using hv, (List.cons.inj hq).2.symm⟩
    | cons d q =>
      obtain rfl := (List.cons.inj hq).1
      cases h.blanks '(' (by simp [hv])

end Head

/-! ## What a scan finds -/

theorem mem_ends_conditionStart :
    u ∈ conditionStart.ends s ↔ s.atBorder = true ∧
      ∃ w v r, s.after = w ++ (v ++ '(' :: r) ∧ (w = "if".toList ∨ w = "while".toList) ∧ IsPad v ∧
        u = { s with before := '(' :: (v.reverse ++ (w.reverse ++ s.before)), after := r } := by
  have hedge : ∀ y, y ∈ edge.ends s ↔ s.atBorder = true ∧ y = s := by
    intro y
    rw [ends_edge]
    split <;> simp [*]
  have hword : ∀ y, y ∈ (anyOf ["if", "while"]).ends s ↔ ∃ w,
      (w = "if".toList ∨ w = "while".toList) ∧ ∃ r, s.after = w ++ r ∧
        y = { s with before := w.reverse ++ s.before, after := r } := by
    intro y
    have halt : y ∈ (anyOf ["if", "while"]).ends s ↔
        y ∈ (text "if".toList).ends s ∨ y ∈ (text "while".toList).ends s := List.mem_append
    simp only [halt, mem_ends_text, exists_eq_or_imp, exists_eq_left]
  simp only [conditionStart, blanks, mem_ends_seq, mem_ends_run, mem_ends_chr, hedge]
  constructor
  · rintro ⟨_, ⟨_, ⟨_, ⟨hborder, rfl⟩, hy⟩, v, r₁, hr₁, hv, rfl⟩, r, hr, rfl⟩
    obtain ⟨w, hw, r₀, hafter, rfl⟩ := (hword _).mp hy
    dsimp only at hr hr₁
    exact ⟨hborder, w, v, r, by rw [hafter, hr₁, hr], hw, hv, rfl⟩
  · rintro ⟨hborder, w, v, r, hafter, hw, hv, rfl⟩
    exact ⟨_, ⟨_, ⟨s, ⟨hborder, rfl⟩, (hword _).mpr ⟨w, hw, _, hafter, rfl⟩⟩,
      v, _, rfl, hv, rfl⟩, r, rfl, rfl⟩

/-- Before a word stands a border where no word character does. -/
theorem atBorder_iff (hw : w = "if".toList ∨ w = "while".toList) (hafter : s.after = w ++ r) :
    s.atBorder = true ↔ ∀ d, s.before.head? = some d → isWord d = false := by
  have hhead : s.after.head?.any isWord = true := by
    rw [hafter]
    rcases hw with rfl | rfl <;> rfl
  rw [Place.atBorder, hhead]
  cases s.before.head? <;> simp

theorem head_of_isMatch (h : IsMatch conditionStart t m) :
    ∃ w v r, Head t m.first.before.reverse w v r ∧ m.last.after = r ∧
      m.stopCol = m.startCol + w.length + v.length + 1 := by
  obtain ⟨hborder, w, v, r, hafter, hw, hv, hlast⟩ := mem_ends_conditionStart.mp h.mem
  refine ⟨w, v, r, ⟨?_, hw, hv, ?_⟩, by rw [hlast], ?_⟩
  · rw [← hafter]
    exact h.whole.symm
  · simpa using (atBorder_iff hw hafter).mp hborder
  · rw [Match.stopCol, hlast, Match.startCol, Place.column, Place.column]
    simp only [List.length_cons, List.length_append, List.length_reverse]
    omega

theorem Head.beginsAt (h : Head t x w v r) : conditionStart.BeginsAt t x.length := by
  have hplace : Place.atColumn t x.length = ⟨x.reverse, w ++ (v ++ '(' :: r), []⟩ := by
    rw [h.text, atColumn_append]
  have hborder : (Place.atColumn t x.length).atBorder = true := by
    rw [hplace, atBorder_iff h.word rfl]
    simpa using h.border
  have hmem := mem_ends_conditionStart.mpr
    ⟨hborder, w, v, r, by rw [hplace], h.word, h.blanks, rfl⟩
  refine ⟨?_, List.ne_nil_of_mem hmem⟩
  rw [h.text, List.length_append]
  exact Nat.le_add_right _ _

theorem exists_head_of_beginsAt (h : conditionStart.BeginsAt t c) :
    ∃ x w v r, Head t x w v r ∧ x.length = c := by
  obtain ⟨u, hu⟩ := List.exists_mem_of_ne_nil _ h.2
  obtain ⟨hborder, w, v, r, hafter, hw, hv, -⟩ := mem_ends_conditionStart.mp hu
  refine ⟨t.take c, w, v, r, ⟨?_, hw, hv, ?_⟩, List.length_take_of_le h.1⟩
  · rw [← hafter]
    exact (List.take_append_drop c t).symm
  · have hbefore := (atBorder_iff hw hafter).mp hborder
    simpa [Place.atColumn] using hbefore

theorem apart_conditionStart (t : List Char) : conditionStart.Apart t := by
  intro m hm c hlt hstop hbegins
  obtain ⟨w, v, r, hhead, -, hcol⟩ := head_of_isMatch (isMatch_of_mem_findAll hm)
  obtain ⟨x', w', v', r', hhead', rfl⟩ := exists_head_of_beginsAt hbegins
  have hle := hhead.apart hhead' (by simpa [Match.startCol, Place.column] using hlt)
  rw [List.length_reverse] at hle
  have hstart : m.startCol = m.first.before.length := rfl
  omega

theorem reads_conditionStart : conditionStart.reads = true := by decide

theorem mem_conditionSpans {p : Nat × Nat} :
    p ∈ conditionSpans t ↔ ∃ m ∈ conditionStart.findAll t,
      p = (m.stopCol, m.stopCol + closeLength 1 (t.drop m.stopCol)) := by
  have hafter : ∀ m ∈ conditionStart.findAll t, m.last.after = t.drop m.stopCol := by
    intro m hm
    rw [← (isMatch_of_mem_findAll hm).whole_last]
    exact (drop_column m.last).symm
  rw [conditionSpans, List.mem_map]
  refine exists_congr fun m => and_congr_right fun hm => ?_
  rw [hafter m hm, eq_comm]

/-- The end that a scan finds for a condition is the only one that it has. -/
theorem eq_add_closeLength_iff (ha : a ≤ t.length) :
    b = a + closeLength 1 (t.drop a) ↔ (∃ k, ClosesAt 1 (t.drop a) k ∧ b = a + k + 1) ∨
      (∀ k, ¬ ClosesAt 1 (t.drop a) k) ∧ b = t.length := by
  rcases closeLength_cases 0 (t.drop a) with ⟨k, hk, hlength⟩ | ⟨hnone, hlength⟩
  · rw [hlength, ← Nat.add_assoc]
    constructor
    · exact fun hb => .inl ⟨k, hk, hb⟩
    · rintro (⟨j, hj, hb⟩ | ⟨hnone, -⟩)
      · rw [hb, hj.unique hk]
      · exact absurd hk (hnone k)
  · rw [hlength, List.length_drop, Nat.add_sub_cancel' ha]
    constructor
    · exact fun hb => .inr ⟨hnone, hb⟩
    · rintro (⟨j, hj, -⟩ | ⟨-, hb⟩)
      · exact absurd hj (hnone j)
      · exact hb

/-- The spans of a text are its conditions. -/
theorem mem_conditionSpans_iff : (a, b) ∈ conditionSpans t ↔ IsCondition t a b := by
  rw [mem_conditionSpans]
  constructor
  · rintro ⟨m, hm, heq⟩
    obtain ⟨rfl, hb⟩ := Prod.mk.inj heq
    have hmatch := isMatch_of_mem_findAll hm
    obtain ⟨w, v, r, hhead, -, hcol⟩ := head_of_isMatch hmatch
    refine ⟨⟨_, w, v, r, hhead, ?_⟩, (eq_add_closeLength_iff hmatch.stopCol_le).mp hb⟩
    rw [hcol, List.length_reverse]
    rfl
  · rintro ⟨⟨x, w, v, r, hhead, rfl⟩, hends⟩
    have hstart :=
      (mem_startCols_iff reads_conditionStart (apart_conditionStart t)).mpr hhead.beginsAt
    obtain ⟨m, hm, hcol⟩ := List.mem_map.mp hstart
    have hmatch := isMatch_of_mem_findAll hm
    obtain ⟨w', v', r', hhead', -, hstop⟩ := head_of_isMatch hmatch
    obtain ⟨rfl, rfl, -⟩ := hhead'.unique hhead (by rw [List.length_reverse]; exact hcol)
    rw [← hcol, ← hstop] at hends ⊢
    exact ⟨m, hm,
      congrArg (Prod.mk m.stopCol) ((eq_add_closeLength_iff hmatch.stopCol_le).mpr hends)⟩

theorem within_iff : within c (conditionSpans t) = true ↔
    ∃ a b, IsCondition t a b ∧ a ≤ c ∧ c < b := by
  simp only [within, List.any_eq_true, Bool.and_eq_true, decide_eq_true_eq, Prod.exists,
    mem_conditionSpans_iff]

/-- The spans go from left to right. -/
theorem pairwise_conditionSpans (t : List Char) :
    (conditionSpans t).Pairwise fun p q => p.1 < q.1 := by
  rw [conditionSpans, List.pairwise_map]
  refine (pairwise_findAll reads_conditionStart t).imp_of_mem fun {m m'} _ hm' hle => ?_
  obtain ⟨w, v, r, -, -, hstop⟩ := head_of_isMatch (isMatch_of_mem_findAll hm')
  dsimp only
  omega

end NullAccess.Access
