import Mathlib.Data.List.DropRight
import Mathlib.Order.Bounds.Basic
import NullAccess.Proofs.Scope.Balance
import NullAccess.Proofs.Source.Parameters
import NullAccess.Source.Extract

/-!
# The text of a function

A function is declared at a line and told by two searches.  Upwards from the declared line the
nearest line that names a function is taken for its header (`StartsAt`), and downwards from the
header the lines are taken up to the first line end at which they close (`EndsAt`).  The text is
what lies between (`body_is_closed_slice`).

Of the lines of the file it needs those that the two searches read: the window above the declared
line with the declared line itself, and the lines of the function.  The declared line counts even
where the function ends above it, for the upward search begins there
(`body_turns_on_declared_line`).
-/

namespace NullAccess

namespace Text

variable {p : Char → Bool} {sep : Char} {t r : List Char}

theorem joinWith_eq_intercalate (sep : List Char) (parts : List (List Char)) :
    joinWith sep parts = sep.intercalate parts := by
  fun_induction joinWith sep parts with
  | case1 => rfl
  | case2 t => rw [List.intercalate_singleton]
  | case3 t rest hne ih =>
    obtain ⟨u, rest, rfl⟩ := List.exists_cons_of_ne_nil hne
    rw [ih, List.intercalate_cons_cons]

theorem dropEndWhile_of_getLast? (h : ∀ c ∈ t.getLast?, p c = false) : dropEndWhile p t = t := by
  refine List.rdropWhile_eq_self_iff.mpr fun hne => ?_
  rw [h (t.getLast hne) (List.getLast?_eq_some_getLast hne)]
  decide

theorem getLast?_dropEndWhile (p : Char → Bool) (t : List Char) :
    ∀ c ∈ (dropEndWhile p t).getLast?, p c = false := by
  intro c hc
  obtain ⟨hne, hlast⟩ := List.mem_getLast?_eq_getLast hc
  rw [hlast]
  exact Bool.eq_false_iff.mpr (List.rdropWhile_last_not p t hne)

/-- A text is cut at its last separator, if it has one. -/
theorem exists_last_part (sep : Char) (t : List Char) :
    ∃ path last, t = path ++ last ∧ sep ∉ last ∧ (path = [] ∨ ∃ front, path = front ++ [sep]) := by
  by_cases hmem : sep ∈ t
  · obtain ⟨last, front, heq, hlast⟩ := List.eq_append_cons_of_mem (List.mem_reverse.mpr hmem)
    refine ⟨front.reverse ++ [sep], last.reverse, ?_, fun h => hlast (List.mem_reverse.mp h),
      .inr ⟨front.reverse, rfl⟩⟩
    rw [← List.reverse_reverse t, heq]
    simp
  · exact ⟨[], t, rfl, hmem, .inl rfl⟩

theorem getLast?_splitOn_of_last_part (hr : sep ∉ r) (ht : t = [] ∨ ∃ front, t = front ++ [sep]) :
    (splitOn sep (t ++ r)).getLast? = some r := by
  rcases ht with rfl | ⟨front, rfl⟩
  · rw [List.nil_append, splitOn_of_not_mem hr]
    rfl
  · rw [List.append_assoc, List.singleton_append, splitOn_append, splitOn_of_not_mem hr,
      List.getLast?_concat]

end Text

namespace Source

open Text

variable {lines lines' : List Line} {function : String} {bare : List Char} {l : Line}
  {k s e m n : Nat} {depth : Int} {opened : Bool}

/-! ## The header -/

/-- The bare name of a function: behind the last dot of its name, and without the parentheses that
the name ends in. -/
structure IsBareName (function : String) (bare : List Char) : Prop where
  no_dot : '.' ∉ bare
  not_paren : ∀ c ∈ bare.getLast?, c ≠ '(' ∧ c ≠ ')'
  parts : ∃ path parens, function.toList = path ++ bare ++ parens ∧
    (path = [] ∨ ∃ front, path = front ++ ['.']) ∧ ∀ c ∈ parens, c = '(' ∨ c = ')'

/-- A line names a function when it holds the word for one, or the bare name if that is not
empty. -/
def NamesFunction (function : String) (l : Line) : Prop :=
  "function".toList <:+: l ∨ ∃ bare, IsBareName function bare ∧ bare ≠ [] ∧ bare <:+: l

/-- Line `i` may be the header of a function declared at line `k`: it is that line or one of the
nine above, and it names the function. -/
def HeaderAt (lines : List Line) (function : String) (k i : Nat) : Prop :=
  i ≤ k ∧ k ≤ i + 9 ∧ ∃ l, lines[i]? = some l ∧ NamesFunction function l

/-- A function declared at line `k` begins at line `s`: the nearest header, or else the declared
line. -/
def StartsAt (lines : List Line) (function : String) (k s : Nat) : Prop :=
  IsGreatest {i | HeaderAt lines function k i} s ∨ (∀ i, ¬ HeaderAt lines function k i) ∧ s = k

theorem isBareName_bareName (function : String) : IsBareName function (bareName function) := by
  obtain ⟨parens, hparens, hname⟩ :=
    exists_dropEndWhile (fun c => c == '(' || c == ')') function.toList
  have hend := getLast?_dropEndWhile (fun c => c == '(' || c == ')') function.toList
  unfold bareName
  generalize dropEndWhile (fun c => c == '(' || c == ')') function.toList = name at hname hend ⊢
  obtain ⟨path, last, rfl, hdot, hpath⟩ := exists_last_part '.' name
  dsimp only
  rw [getLast?_splitOn_of_last_part hdot hpath, Option.getD_some]
  refine ⟨hdot, fun c hc => ?_, path, parens, hname, hpath, fun c hc => by simpa using hparens c hc⟩
  have hlast : c ∈ (path ++ last).getLast? := by
    rw [List.getLast?_append, Option.mem_def.mp hc]
    rfl
  simpa using hend c hlast

theorem IsBareName.bareName_eq (h : IsBareName function bare) : bareName function = bare := by
  obtain ⟨hdot, hend, path, parens, hname, hpath, hparens⟩ := h
  have hstrip : dropEndWhile (fun c => c == '(' || c == ')') function.toList = path ++ bare := by
    rw [hname, dropEndWhile_append fun c hc => by simpa using hparens c hc]
    refine dropEndWhile_of_getLast? fun c hc => ?_
    rw [List.getLast?_append] at hc
    cases hlast : bare.getLast? with
    | some d =>
      rw [hlast, Option.some_or, Option.mem_some_iff] at hc
      simpa [hc] using hend d hlast
    | none =>
      rw [hlast, Option.none_or] at hc
      rcases hpath with rfl | ⟨front, rfl⟩
      · cases hc
      · rw [List.getLast?_concat, Option.mem_some_iff] at hc
        rw [← hc]
        rfl
  unfold bareName
  rw [hstrip]
  dsimp only
  rw [getLast?_splitOn_of_last_part hdot hpath, Option.getD_some]

theorem isHeader_iff : isHeader (bareName function) l = true ↔ NamesFunction function l := by
  have hbare : (∃ bare, IsBareName function bare ∧ bare ≠ [] ∧ bare <:+: l) ↔
      bareName function ≠ [] ∧ bareName function <:+: l := by
    constructor
    · rintro ⟨bare, hbare, h⟩
      rwa [hbare.bareName_eq]
    · exact fun h => ⟨bareName function, isBareName_bareName function, h⟩
  rw [NamesFunction, hbare, isHeader, Bool.or_eq_true, Bool.and_eq_true, holds_iff_isInfix,
    holds_iff_isInfix, Bool.not_eq_true', ← Bool.not_eq_true, List.isEmpty_iff]

/-- The upward search finds the nearest header in its window, or there is none. -/
theorem headerFrom_cases (lines : List Line) (bare : List Char) (n k : Nat) :
    (∃ s, headerFrom lines bare n k = some s ∧
      IsGreatest {i | i ≤ k ∧ k < i + n ∧ (lines[i]?).any (isHeader bare) = true} s) ∨
    headerFrom lines bare n k = none ∧
      ∀ i, i ≤ k → k < i + n → ¬ (lines[i]?).any (isHeader bare) = true := by
  induction n generalizing k with
  | zero => exact .inr ⟨rfl, fun i hle hlt => absurd hle (Nat.not_le_of_lt hlt)⟩
  | succ n ih =>
    by_cases hhere : (lines[k]?).any (isHeader bare) = true
    · refine .inl
        ⟨k, by cases k <;> rw [headerFrom, if_pos hhere], ⟨Nat.le_refl k, by omega, hhere⟩, ?_⟩
      exact fun i hi => hi.1
    · have hbelow : ∀ i, i ≤ k → (lines[i]?).any (isHeader bare) = true → i < k := by
        intro i hle hi
        refine Nat.lt_of_le_of_ne hle ?_
        rintro rfl
        exact hhere hi
      cases k with
      | zero =>
        rw [headerFrom, if_neg hhere]
        exact .inr ⟨rfl, fun i hle _ hi => absurd (hbelow i hle hi) (Nat.not_lt_zero i)⟩
      | succ k =>
        rw [headerFrom, if_neg hhere]
        -- The window is one shorter and begins one line higher, so it reaches up as far as before.
        rcases ih k with ⟨s, hs, ⟨hle, hlt, hheader⟩, hgreatest⟩ | ⟨hnone, hall⟩
        · refine .inl ⟨s, hs, ⟨by omega, by omega, hheader⟩, fun i hi => ?_⟩
          have hi' := hbelow i hi.1 hi.2.2
          exact hgreatest ⟨by omega, by have := hi.2.1; omega, hi.2.2⟩
        · refine .inr ⟨hnone, fun i hle hlt hi => ?_⟩
          have hi' := hbelow i hle hi
          exact hall i (by omega) (by omega) hi

theorem headerAt_iff {i : Nat} : HeaderAt lines function k i ↔
    i ≤ k ∧ k < i + headerWindow ∧ (lines[i]?).any (isHeader (bareName function)) = true := by
  simp only [HeaderAt, headerWindow, Option.any_eq_true, isHeader_iff]
  exact and_congr_right fun _ => and_congr_left' (by omega)

theorem startsAt_iff : StartsAt lines function k s ↔
    (headerFrom lines (bareName function) headerWindow k).getD k = s := by
  simp only [StartsAt, headerAt_iff, not_and]
  rcases headerFrom_cases lines (bareName function) headerWindow k with
    ⟨i, hi, hgreatest⟩ | ⟨hnone, hall⟩
  · rw [hi, Option.getD_some]
    constructor
    · rintro (h | ⟨hall, -⟩)
      · exact IsGreatest.unique hgreatest h
      · exact absurd hgreatest.1.2.2 (hall i hgreatest.1.1 hgreatest.1.2.1)
    · rintro rfl
      exact .inl hgreatest
  · rw [hnone, Option.getD_none]
    constructor
    · rintro (h | ⟨-, hs⟩)
      · exact absurd h.1.2.2 (hall s h.1.1 h.1.2.1)
      · exact hs.symm
    · rintro rfl
      exact .inr ⟨hall, rfl⟩

theorem StartsAt.window (h : StartsAt lines function k s) : s ≤ k ∧ k ≤ s + 9 := by
  rcases h with ⟨⟨hle, hwindow, -⟩, -⟩ | ⟨-, rfl⟩
  · exact ⟨hle, hwindow⟩
  · exact ⟨Nat.le_refl s, Nat.le_add_right s 9⟩

/-- The search for the header reads the declared line and the nine above it. -/
theorem StartsAt.congr (hagree : ∀ i, k ≤ i + 9 → i ≤ k → lines'[i]? = lines[i]?)
    (h : StartsAt lines function k s) : StartsAt lines' function k s := by
  have hheader : ∀ i, HeaderAt lines' function k i ↔ HeaderAt lines function k i := by
    intro i
    refine and_congr_right fun hle => and_congr_right fun hwindow => ?_
    rw [hagree i hwindow hle]
  simpa only [StartsAt, hheader] using h

/-! ## The end -/

/-- The lines from `s` up to `e` close: a brace is opened in them, and at least as many are
closed. -/
def Closes (lines : List Line) (s e : Nat) : Prop :=
  '{' ∈ (lines.extract s e).flatten ∧
    (lines.extract s e).flatten.count '{' ≤ (lines.extract s e).flatten.count '}'

/-- A function that begins at line `s` ends before line `e`: at the first end where its lines close,
or else ten lines on, or with the file. -/
def EndsAt (lines : List Line) (s e : Nat) : Prop :=
  IsLeast {e | Closes lines s e} e ∨ (∀ e, ¬ Closes lines s e) ∧ e = min (s + 10) lines.length

theorem balance_eq (l : Line) : balance l = Braces.balance l := by
  suffices h :
      ∀ d : Int, l.foldl (fun d c => if c = '{' then d + 1 else if c = '}' then d - 1 else d) d =
      d + Braces.balance l by
    rw [balance, h, Int.zero_add]
  induction l with
  | nil => exact fun d => (Int.add_zero d).symm
  | cons c r ih =>
    intro d
    have hsplit := Braces.balance_append [c] r
    rw [List.singleton_append] at hsplit
    rw [List.foldl_cons, ih, hsplit]
    by_cases hopen : c = '{'
    · rw [if_pos hopen, hopen, Braces.balance_open]
      omega
    · rw [if_neg hopen]
      by_cases hclose : c = '}'
      · rw [if_pos hclose, hclose, Braces.balance_close]
        omega
      · rw [if_neg hclose, Braces.balance_other hopen hclose]
        omega

/-- Read at a depth, behind an opening or not, the first `n` lines close. -/
def ClosesAfter (depth : Int) (opened : Bool) (lines : List Line) (n : Nat) : Prop :=
  (0 < n ∧ n ≤ lines.length) ∧ (opened = true ∨ '{' ∈ (lines.take n).flatten) ∧
    depth + Braces.balance (lines.take n).flatten ≤ 0

theorem closesAfter_cons_one : ClosesAfter depth opened (l :: lines) 1 ↔
    (opened || l.contains '{') = true ∧ depth + balance l ≤ 0 := by
  simp [ClosesAfter, balance_eq]

theorem closesAfter_cons (hn : 0 < n) : ClosesAfter depth opened (l :: lines) (n + 1) ↔
    ClosesAfter (depth + balance l) (opened || l.contains '{') lines n := by
  simp [ClosesAfter, balance_eq, Braces.balance_append, hn, or_assoc, Int.add_assoc]

/-- The count of the braces stops at the first line end where the lines close, or they never do. -/
theorem closedLength_cases (depth : Int) (opened : Bool) (lines : List Line) :
    (∃ m, closedLength depth opened lines = some m ∧
      IsLeast {n | ClosesAfter depth opened lines n} m) ∨
    closedLength depth opened lines = none ∧ ∀ n, ¬ ClosesAfter depth opened lines n := by
  induction lines generalizing depth opened with
  | nil => exact .inr ⟨rfl, fun n h => absurd h.1.1 (Nat.not_lt_of_le h.1.2)⟩
  | cons l rest ih =>
    by_cases hnow : ClosesAfter depth opened (l :: rest) 1
    · refine .inl ⟨1, ?_, hnow, fun n hn => hn.1.1⟩
      rw [closesAfter_cons_one] at hnow
      simp only [closedLength, hnow.1, hnow.2, decide_true, Bool.and_self, if_true]
    · -- Every later line end is a line end of the rest, read from where the first line leaves off.
      have hlater : ∀ n, ClosesAfter depth opened (l :: rest) n → ∃ n', n = n' + 1 ∧
          ClosesAfter (depth + balance l) (opened || l.contains '{') rest n' := by
        intro n hn
        obtain ⟨n', rfl⟩ := Nat.exists_eq_add_of_lt hn.1.1
        rw [Nat.zero_add] at hn ⊢
        have hpos : 0 < n' := by
          refine Nat.pos_of_ne_zero ?_
          rintro rfl
          exact hnow hn
        exact ⟨n', rfl, (closesAfter_cons hpos).mp hn⟩
      have hstep : closedLength depth opened (l :: rest) =
          (closedLength (depth + balance l) (opened || l.contains '{') rest).map (· + 1) := by
        rw [closesAfter_cons_one] at hnow
        refine if_neg fun h => hnow ?_
        simpa using h
      rw [hstep]
      rcases ih (depth + balance l) (opened || l.contains '{') with
        ⟨m, hm, hcloses, hleast⟩ | ⟨hnone, hall⟩
      · refine .inl ⟨m + 1, by rw [hm]; rfl, (closesAfter_cons hcloses.1.1).mpr hcloses, ?_⟩
        intro n hn
        obtain ⟨n', rfl, hn'⟩ := hlater n hn
        exact Nat.succ_le_succ (hleast hn')
      · refine .inr ⟨by rw [hnone]; rfl, fun n hn => ?_⟩
        obtain ⟨n', rfl, hn'⟩ := hlater n hn
        exact hall n' hn'

theorem Closes.closesAfter (h : Closes lines s e) :
    ClosesAfter 0 false (lines.drop s) (min (e - s) (lines.drop s).length) := by
  obtain ⟨hmem, hcount⟩ := h
  rw [List.extract_eq_take_drop] at hmem hcount
  have htake : (lines.drop s).take (min (e - s) (lines.drop s).length) =
      (lines.drop s).take (e - s) := by
    rw [List.take_eq_take_iff, Nat.min_assoc, Nat.min_self]
  have hpos : 0 < ((lines.drop s).take (e - s)).length := by
    refine List.length_pos_of_ne_nil fun hnil => ?_
    rw [hnil] at hmem
    cases hmem
  rw [List.length_take] at hpos
  refine ⟨⟨hpos, Nat.min_le_right _ _⟩, .inr (by rwa [htake]), ?_⟩
  rw [htake, Braces.balance]
  omega

theorem ClosesAfter.closes (h : ClosesAfter 0 false (lines.drop s) m) : Closes lines s (s + m) := by
  obtain ⟨-, hopen, hbalance⟩ := h
  rw [Closes, List.extract_eq_take_drop, Nat.add_sub_cancel_left]
  rw [Braces.balance] at hbalance
  exact ⟨hopen.resolve_left Bool.false_ne_true, by omega⟩

theorem closedLength_drop_cases (lines : List Line) (s : Nat) :
    (∃ m, closedLength 0 false (lines.drop s) = some m ∧ IsLeast {e | Closes lines s e} (s + m)) ∨
    closedLength 0 false (lines.drop s) = none ∧ ∀ e, ¬ Closes lines s e := by
  rcases closedLength_cases 0 false (lines.drop s) with ⟨m, hm, hcloses, hleast⟩ | ⟨hnone, hall⟩
  · refine .inl ⟨m, hm, ClosesAfter.closes hcloses, fun e he => ?_⟩
    have hle := hleast he.closesAfter
    have hpos := hcloses.1.1
    omega
  · exact .inr ⟨hnone, fun e he => hall _ he.closesAfter⟩

theorem exists_endsAt (lines : List Line) (s : Nat) : ∃ e, EndsAt lines s e := by
  rcases closedLength_drop_cases lines s with ⟨m, -, hleast⟩ | ⟨-, hall⟩
  · exact ⟨s + m, .inl hleast⟩
  · exact ⟨_, .inr ⟨hall, rfl⟩⟩

theorem isLeast_closes_iff : IsLeast {e | Closes lines s e} e ↔
    (closedLength 0 false (lines.drop s)).map (s + ·) = some e := by
  rcases closedLength_drop_cases lines s with ⟨m, hm, hleast⟩ | ⟨hnone, hall⟩
  · rw [hm, Option.map_some, Option.some.injEq]
    constructor
    · exact IsLeast.unique hleast
    · rintro rfl
      exact hleast
  · rw [hnone, Option.map_none]
    exact iff_of_false (fun h => hall e h.1) nofun

theorem EndsAt.bodyLines_eq (h : EndsAt lines s e) :
    bodyLines (lines.drop s) = lines.extract s e := by
  rw [bodyLines, List.extract_eq_take_drop]
  rcases h with hleast | ⟨hall, rfl⟩
  · obtain ⟨m, hm, rfl⟩ := Option.map_eq_some_iff.mp (isLeast_closes_iff.mp hleast)
    rw [hm, Option.getD_some, Nat.add_sub_cancel_left]
  · rcases closedLength_drop_cases lines s with ⟨m, -, hleast⟩ | ⟨hnone, -⟩
    · exact absurd hleast.1 (hall _)
    · rw [hnone, Option.getD_none, List.take_eq_take_iff, List.length_drop, bodyWindow]
      omega

theorem extract_congr (hagree : ∀ i, s ≤ i → i < e → lines'[i]? = lines[i]?) :
    lines'.extract s e = lines.extract s e := by
  refine List.ext_getElem? fun i => ?_
  rw [List.extract_eq_take_drop, List.extract_eq_take_drop, List.getElem?_take, List.getElem?_take]
  split
  · rw [List.getElem?_drop, List.getElem?_drop, hagree (s + i) (Nat.le_add_right s i) (by omega)]
  · rfl

theorem isLeast_closes_congr (hagree : ∀ i, s ≤ i → i < e → lines'[i]? = lines[i]?)
    (h : IsLeast {e | Closes lines s e} e) : IsLeast {e | Closes lines' s e} e := by
  have hcloses : ∀ e' ≤ e, (Closes lines' s e' ↔ Closes lines s e') := by
    intro e' hle
    rw [Closes, Closes, extract_congr fun i hs hlt => hagree i hs (Nat.lt_of_lt_of_le hlt hle)]
  refine ⟨(hcloses e (Nat.le_refl e)).mpr h.1, fun e' he' => ?_⟩
  by_contra hlt
  exact hlt (h.2 ((hcloses e' (Nat.le_of_not_le hlt)).mp he'))

/-! ## The text -/

theorem functionBody?_eq_none_iff {n : Int} :
    functionBody? lines n function = none ↔ n < 1 ∨ lines.length < n := by
  unfold functionBody?
  split <;> simp_all

theorem functionBody?_eq_extract (hk : k < lines.length) (hs : StartsAt lines function k s)
    (he : EndsAt lines s e) :
    functionBody? lines (k + 1) function =
      some (String.ofList (['\n'].intercalate (lines.extract s e))) := by
  have hin : ¬ ((k + 1 : Int) < 1 ∨ (lines.length : Int) < k + 1) := by omega
  have hdeclared : ((k + 1 : Int) - 1).toNat = k := by omega
  rw [functionBody?, if_neg hin]
  dsimp only
  rw [hdeclared, startsAt_iff.mp hs, he.bodyLines_eq, joinWith_eq_intercalate]

/-- The text of a function is missing iff its declared line is, and else it is the lines from its
start to its end.  Where these close, it is told by the declared line, the nine above it, and the
lines from there on to the end. -/
theorem body_is_closed_slice (lines : List Line) (n : Int) (function : String) :
    (functionBody? lines n function = none ↔ n < 1 ∨ lines.length < n) ∧
      (∀ body, functionBody? lines n function = some body ↔
        ∃ k s e : Nat, n = k + 1 ∧ k < lines.length ∧
          StartsAt lines function k s ∧ EndsAt lines s e ∧
          body = String.ofList (['\n'].intercalate (lines.extract s e))) ∧
      ∀ (lines' : List Line) (k s e : Nat), n = k + 1 → k < lines.length →
        StartsAt lines function k s → IsLeast {e | Closes lines s e} e →
        (∀ i, k ≤ i + 9 → i ≤ k ∨ i < e → lines'[i]? = lines[i]?) →
        functionBody? lines' n function = functionBody? lines n function := by
  refine ⟨functionBody?_eq_none_iff, fun body => ?_, ?_⟩
  · constructor
    · intro hbody
      have hin : ¬ (n < 1 ∨ lines.length < n) := by
        intro hout
        rw [functionBody?_eq_none_iff.mpr hout] at hbody
        cases hbody
      obtain ⟨k, rfl⟩ : ∃ k : Nat, n = k + 1 := ⟨(n - 1).toNat, by omega⟩
      obtain ⟨e, he⟩ := exists_endsAt lines
        ((headerFrom lines (bareName function) headerWindow k).getD k)
      have hk : k < lines.length := by omega
      have htext := functionBody?_eq_extract hk (startsAt_iff.mpr rfl) he
      rw [hbody, Option.some.injEq] at htext
      exact ⟨k, _, e, rfl, hk, startsAt_iff.mpr rfl, he, htext⟩
    · rintro ⟨k, s, e, rfl, hk, hs, he, rfl⟩
      exact functionBody?_eq_extract hk hs he
  · rintro lines' k s e rfl hk hs hleast hagree
    -- The start lies in the window, so the lines that agree take in the whole text.
    have hlines : ∀ i, s ≤ i → i < e → lines'[i]? = lines[i]? := fun i hi hlt =>
      hagree i (Nat.le_trans hs.window.2 (Nat.add_le_add_right hi 9)) (.inr hlt)
    have hk' : k < lines'.length := by
      rw [← Nat.not_le, ← List.getElem?_eq_none_iff,
        hagree k (Nat.le_add_right k 9) (.inl (Nat.le_refl k)),
        List.getElem?_eq_none_iff, Nat.not_le]
      exact hk
    rw [functionBody?_eq_extract hk hs (.inl hleast),
      functionBody?_eq_extract hk' (hs.congr fun i hwindow hle => hagree i hwindow (.inl hle))
        (.inl (isLeast_closes_congr hlines hleast)),
      extract_congr hlines]

/-- A function that is declared inside its body, below its header. -/
def threadLines : List Line :=
  ["// threads".toList, "const init = (threads) => \x7b".toList, "  return threads;".toList,
    "\x7d;".toList, "init([]);".toList]

theorem body_is_closed_slice_sample :
    StartsAt threadLines "pool.init()" 2 1 ∧ IsLeast {e | Closes threadLines 1 e} 4 ∧
      functionBody? threadLines 3 "pool.init()" =
        some "const init = (threads) => \x7b\n  return threads;\n\x7d;" ∧
      functionBody? (threadLines.take 4) 3 "pool.init()" =
        functionBody? threadLines 3 "pool.init()" := by
  have hs : StartsAt threadLines "pool.init()" 2 1 := startsAt_iff.mpr (by decide)
  have he : IsLeast {e | Closes threadLines 1 e} 4 := isLeast_closes_iff.mpr (by decide)
  have hagree : ∀ i < 4, (threadLines.take 4)[i]? = threadLines[i]? := by decide
  have hspec := body_is_closed_slice threadLines 3 "pool.init()"
  exact ⟨hs, he, (hspec.2.1 _).mpr ⟨2, 1, 4, rfl, by decide, hs, .inl he, by decide⟩,
    hspec.2.2 (threadLines.take 4) 2 1 4 rfl (by decide) hs he fun i _ hi => hagree i (by omega)⟩

/-- A function that ends above its declared line is not told by the lines down to its end: the
declared line may name a function itself. -/
theorem body_turns_on_declared_line :
    ¬ ∀ (lines lines' : List Line) (n : Int) (function : String) (k s e : Nat), n = k + 1 →
        k < lines.length → k < lines'.length → StartsAt lines function k s →
        IsLeast {e | Closes lines s e} e →
        (∀ i, k ≤ i + 9 → i < e → lines'[i]? = lines[i]?) →
        functionBody? lines' n function = functionBody? lines n function := by
  intro hall
  have hsame := hall ["function f() \x7b\x7d".toList, "x".toList]
    ["function f() \x7b\x7d".toList, "function h() \x7b\x7d".toList] 2 "g" 1 0 1 rfl (by decide)
    (by decide) (startsAt_iff.mpr (by decide)) (isLeast_closes_iff.mpr (by decide)) fun i _ hi => by
      rw [Nat.lt_one_iff.mp hi]
      rfl
  exact absurd hsame (by decide)

end Source

end NullAccess
