import NullAccess.Proofs.Analysis.Blocks
import NullAccess.Proofs.Scope.Balance

/-!
# Blocks are pairs of braces

In a text a brace has its partner where all braces between the two have theirs (`Balanced`,
`Paired`).  A brace that closes nothing is then no brace's partner, and between partners there is
none.

The extents of a walk are these pairs: the walk records one for each brace that it takes off its
openings (`mem_closings_iff`), and the last one of a line is the one that reaches furthest.  Pairs
do not cross (`Balanced.not_crossed`), so neither do extents.
-/

namespace NullAccess

/-! ## Balanced texts -/

namespace Braces

variable {t r p a b c : List Char}

/-- A text in which every brace has its partner. -/
inductive Balanced : List Char → Prop where
  | nil : Balanced []
  | other {c : Char} {r : List Char} (hopen : c ≠ '{') (hclose : c ≠ '}') (hrest : Balanced r) :
      Balanced (c :: r)
  | block {inner r : List Char} (hinner : Balanced inner) (hrest : Balanced r) :
      Balanced ('{' :: (inner ++ '}' :: r))

namespace Balanced

theorem of_no_braces (hopen : '{' ∉ t) (hclose : '}' ∉ t) : Balanced t := by
  induction t with
  | nil => exact .nil
  | cons c r ih =>
    rw [List.mem_cons, not_or] at hopen hclose
    exact .other (Ne.symm hopen.1) (Ne.symm hclose.1) (ih hopen.2 hclose.2)

theorem append (ht : Balanced t) (hr : Balanced r) : Balanced (t ++ r) := by
  induction ht with
  | nil => exact hr
  | other hopen hclose _ ih => exact .other hopen hclose ih
  | block hinner _ _ ih =>
    rw [List.cons_append, List.append_assoc]
    exact .block hinner ih

theorem balance_eq (h : Balanced t) : balance t = 0 := by
  induction h with
  | nil => rfl
  | @other c r hopen hclose _ ih =>
    have hsplit : balance (c :: r) = balance [c] + balance r := balance_append [c] r
    rw [hsplit, balance_other hopen hclose, ih]
    rfl
  | @block inner r _ _ ihinner ihrest =>
    have hsplit : '{' :: (inner ++ '}' :: r) = ['{'] ++ inner ++ ['}'] ++ r := by simp
    rw [hsplit, balance_append, balance_append, balance_append, balance_open,
      balance_close, ihinner, ihrest]
    rfl

/-- A balanced text closes at no place more than it opened before. -/
theorem balance_nonneg (h : Balanced t) (hp : p <+: t) : 0 ≤ balance p := by
  induction h generalizing p with
  | nil =>
    rw [List.prefix_nil.mp hp]
    exact Int.le_refl 0
  | @other c r hopen hclose _ ih =>
    rcases List.prefix_cons_iff.mp hp with rfl | ⟨q, rfl, hq⟩
    · exact Int.le_refl 0
    · have hsplit : balance (c :: q) = balance [c] + balance q := balance_append [c] q
      rw [hsplit, balance_other hopen hclose, Int.zero_add]
      exact ih hq
  | @block inner r hinner _ ihinner ihrest =>
    rcases List.prefix_cons_iff.mp hp with rfl | ⟨q, rfl, hq⟩
    · exact Int.le_refl 0
    · have hsplit : balance ('{' :: q) = 1 + balance q := balance_append ['{'] q
      rcases List.prefix_or_prefix_of_prefix hq (List.prefix_append inner _) with hin | ⟨u, rfl⟩
      · have hle := ihinner hin
        omega
      · have hzero := hinner.balance_eq
        rw [balance_append, hzero] at hsplit
        rcases List.prefix_cons_iff.mp ((List.prefix_append_right_inj inner).mp hq) with
          rfl | ⟨v, rfl, hv⟩
        · rw [hsplit]
          decide
        · have hclose : balance ('}' :: v) = -1 + balance v := balance_append ['}'] v
          have hle := ihrest hv
          omega

/-- The end of a balanced text opens nothing that is closed behind the text. -/
theorem not_crossed (houter : Balanced (a ++ b)) (hinner : Balanced (b ++ '}' :: c)) : False := by
  have hbefore : 0 ≤ balance a := houter.balance_nonneg (List.prefix_append a b)
  have hwhole := houter.balance_eq
  have hclosed : 0 ≤ balance (b ++ ['}']) := hinner.balance_nonneg ⟨c, by simp⟩
  rw [balance_append] at hwhole
  rw [balance_append, balance_close] at hclosed
  omega

end Balanced

/-! ## Pairs -/

/-- Among some letters, a brace on line `opened` has its partner on line `closed`. -/
def Paired (xs : List Letter) (opened closed : Int) : Prop :=
  ∃ before x inner y behind, xs = before ++ x :: (inner ++ y :: behind) ∧
    x.char = '{' ∧ x.line = opened ∧ y.char = '}' ∧ y.line = closed ∧
    Balanced (inner.map (·.char))

variable {xs : List Letter} {opened closed : Int}

theorem Paired.append (h : Paired xs opened closed) (ys : List Letter) :
    Paired (xs ++ ys) opened closed := by
  obtain ⟨before, x, inner, y, behind, rfl, hpair⟩ := h
  exact ⟨before, x, inner, y, behind ++ ys, by simp, hpair⟩

theorem Paired.exists_line (h : Paired xs opened closed) : ∃ y ∈ xs, y.line = closed := by
  obtain ⟨before, x, inner, y, behind, rfl, -, -, -, hline, -⟩ := h
  exact ⟨y, by simp, hline⟩

/-- On lines that do not go back, a letter on a higher line stands behind. -/
theorem split_of_lt {before before' behind behind' : List Letter} {x x' : Letter}
    (hxs : Letter.Ascending (before ++ x :: behind))
    (h : before ++ x :: behind = before' ++ x' :: behind') (hlt : x.line < x'.line) :
    ∃ between, before' = before ++ x :: between ∧ behind = between ++ x' :: behind' := by
  obtain ⟨-, rfl, -⟩ | hbehind | ⟨u, rfl, -⟩ := split_cases h
  · omega
  · exact hbehind
  · have hle := (List.pairwise_append.mp hxs).2.2 x' (by simp) x List.mem_cons_self
    omega

/-- Pairs do not cross. -/
theorem Paired.closed_le {opened' closed' : Int} (hxs : Letter.Ascending xs)
    (h : Paired xs opened closed) (h' : Paired xs opened' closed') (hopened : opened < opened')
    (hclosed : opened' < closed) : closed' ≤ closed := by
  obtain ⟨before, x, inner, y, behind, rfl, -, rfl, hy, rfl, hbalanced⟩ := h
  obtain ⟨before', x', inner', y', behind', heq, -, rfl, -, rfl, hbalanced'⟩ := h'
  -- The second pair opens behind the first one, and before that one closes.
  obtain ⟨u, -, hu⟩ := split_of_lt hxs heq hopened
  have hbehind : Letter.Ascending (u ++ x' :: (inner' ++ y' :: behind')) := hu ▸ hxs.behind
  obtain ⟨v, hinner, hv⟩ := split_of_lt hbehind hu.symm hclosed
  by_contra hlt
  -- So if it closed behind the first one, that one would close within it.
  have hbehind' : Letter.Ascending (v ++ y :: behind) := hv ▸ hbehind.behind
  obtain ⟨w, hinner', -⟩ := split_of_lt hbehind' hv.symm (by omega)
  rw [hinner, List.append_cons, List.map_append] at hbalanced
  rw [hinner', List.map_append, List.map_cons, hy] at hbalanced'
  exact hbalanced.not_crossed hbalanced'

end Braces

open Braces

/-! ## The walk records the pairs -/

namespace Scope

variable {xs : List Letter} {s : Scope} {opened closed : Int}

theorem openings_of_balanced {t : List Char} (h : Balanced t)
    (hxs : xs.map (·.char) = t) (s : Scope) :
    (s.readLetters xs).openings = s.openings := by
  induction h generalizing xs s with
  | nil =>
    rw [List.map_eq_nil_iff.mp hxs]
    rfl
  | other hopen hclose _ ih =>
    obtain ⟨x, rest, rfl, hx, hrest⟩ := List.map_eq_cons_iff.mp hxs
    have hsame : s.readLetter x = s := readLetter_other (by rwa [hx]) (by rwa [hx])
    rw [readLetters, List.foldl_cons, hsame]
    exact ih hrest s
  | block _ _ ihinner ihrest =>
    obtain ⟨x, ys, rfl, hx, hys⟩ := List.map_eq_cons_iff.mp hxs
    obtain ⟨inner, zs, rfl, hinner, hzs⟩ := List.map_eq_append_iff.mp hys
    obtain ⟨y, rest, rfl, hy, hrest⟩ := List.map_eq_cons_iff.mp hzs
    have hopened : (s.readLetter x).openings = ⟨s.depth + 1, x.line, x.snippet⟩ :: s.openings := by
      rw [readLetter_open hx]
    have htop := (ihinner hinner (s.readLetter x)).trans hopened
    have hclosed : (((s.readLetter x).readLetters inner).readLetter y).openings = s.openings := by
      rw [readLetter_close hy htop]
    rw [readLetters, List.foldl_cons, List.foldl_append, List.foldl_cons]
    exact (ihrest hrest _).trans hclosed

/-- Openings that stand, from the innermost out, for braces of a text: behind each, up to the next
one in, all braces have their partners. -/
def Layered : List Opening → List Letter → Prop
  | [], _ => True
  | o :: below, xs => ∃ before x inner, xs = before ++ x :: inner ∧ x.char = '{' ∧ x.line = o.line ∧
      Balanced (inner.map (·.char)) ∧ Layered below before

theorem Layered.append {os : List Opening} {ys : List Letter} (h : Layered os xs)
    (hys : Balanced (ys.map (·.char))) : Layered os (xs ++ ys) := by
  cases os with
  | nil => trivial
  | cons o below =>
    obtain ⟨before, x, inner, rfl, hx, hline, hinner, hbelow⟩ := h
    refine ⟨before, x, inner ++ ys, by simp, hx, hline, ?_, hbelow⟩
    rw [List.map_append]
    exact hinner.append hys

theorem layered_openings (xs : List Letter) : Layered (readLetters {} xs).openings xs := by
  induction xs using List.reverseRecOn with
  | nil => trivial
  | append_singleton ys y ih =>
    rw [readLetters_concat]
    obtain ⟨hy, hs⟩ | ⟨o, below, hy, hstack, hs⟩ | ⟨-, hstack, hs⟩ | ⟨hopen, hclose, hs⟩ :=
      readLetter_cases (readLetters {} ys) y
    · rw [hs]
      exact ⟨ys, y, [], rfl, hy, rfl, .nil, ih⟩
    · -- A block closes, and with its braces it is part of what stands behind the next opening out.
      rw [hs]
      rw [hstack] at ih
      obtain ⟨before, x, inner, rfl, hx, -, hinner, hbelow⟩ := ih
      have hblock : Balanced ((x :: (inner ++ [y])).map (·.char)) := by
        rw [List.map_cons, List.map_append, List.map_singleton, hx, hy]
        exact .block hinner .nil
      simpa using hbelow.append hblock
    · rw [hs, hstack]
      trivial
    · rw [hs]
      exact ih.append (.other hopen hclose .nil)

theorem closings_readLetter (s : Scope) (x : Letter) :
    (s.readLetter x).extents.closings = s.extents.closings ∨
      ∃ o below, x.char = '}' ∧ s.openings = o :: below ∧
        (s.readLetter x).extents.closings = (o.line, x.line) :: s.extents.closings := by
  obtain ⟨-, hs⟩ | ⟨o, below, hx, hstack, hs⟩ | ⟨-, -, hs⟩ | ⟨-, -, hs⟩ := readLetter_cases s x
  · exact .inl (by rw [hs])
  · exact .inr ⟨o, below, hx, hstack, by rw [hs]; rfl⟩
  · exact .inl (by rw [hs])
  · exact .inl (by rw [hs])

theorem mem_closings_readLetters {p : Int × Int} (h : p ∈ s.extents.closings) (xs : List Letter) :
    p ∈ (s.readLetters xs).extents.closings := by
  induction xs generalizing s with
  | nil => exact h
  | cons x rest ih =>
    refine ih ?_
    rcases closings_readLetter s x with hold | ⟨o, below, -, -, hnew⟩
    · rw [hold]
      exact h
    · rw [hnew]
      exact List.mem_cons_of_mem _ h

theorem mem_closings_of_paired (h : Paired xs opened closed) :
    (opened, closed) ∈ (readLetters {} xs).extents.closings := by
  obtain ⟨before, x, inner, y, behind, rfl, hx, rfl, hy, rfl, hinner⟩ := h
  generalize hstart : readLetters {} before = start
  have hopened : (start.readLetter x).openings =
      ⟨start.depth + 1, x.line, x.snippet⟩ :: start.openings := by rw [readLetter_open hx]
  have htop := (openings_of_balanced hinner rfl (start.readLetter x)).trans hopened
  have hclosed : (x.line, y.line) ∈
      (((start.readLetter x).readLetters inner).readLetter y).extents.closings := by
    rw [readLetter_close hy htop]
    exact List.mem_cons_self
  have hsplit : start.readLetters (x :: (inner ++ y :: behind)) =
      (((start.readLetter x).readLetters inner).readLetter y).readLetters behind :=
    readLetters_append (start.readLetter x) inner (y :: behind)
  rw [readLetters_append, hstart, hsplit]
  exact mem_closings_readLetters hclosed behind

theorem paired_of_mem_closings (xs : List Letter)
    (h : (opened, closed) ∈ (readLetters {} xs).extents.closings) : Paired xs opened closed := by
  induction xs using List.reverseRecOn with
  | nil => cases h
  | append_singleton ys y ih =>
    rw [readLetters_concat] at h
    rcases closings_readLetter (readLetters {} ys) y with hold | ⟨o, below, hy, hstack, hnew⟩
    · rw [hold] at h
      exact (ih h).append [y]
    · rw [hnew] at h
      rcases List.mem_cons.mp h with heq | hmem
      · cases heq
        have hlayers := layered_openings ys
        rw [hstack] at hlayers
        obtain ⟨before, x, inner, rfl, hx, hline, hinner, -⟩ := hlayers
        exact ⟨before, x, inner, y, [], by simp, hx, hline, hy, rfl, hinner⟩
      · exact (ih hmem).append [y]

/-- What a walk records as closed are the pairs of its text. -/
theorem mem_closings_iff (xs : List Letter) :
    (opened, closed) ∈ (readLetters {} xs).extents.closings ↔ Paired xs opened closed :=
  ⟨paired_of_mem_closings xs, mem_closings_of_paired⟩

/-- Later closings come first. -/
theorem pairwise_closings (hxs : Letter.Ascending xs) :
    (readLetters {} xs).extents.closings.Pairwise fun p q => q.2 ≤ p.2 := by
  induction xs using List.reverseRecOn with
  | nil => exact .nil
  | append_singleton ys y ih =>
    obtain ⟨hys, -, hlast⟩ := List.pairwise_append.mp hxs
    rw [readLetters_concat]
    rcases closings_readLetter (readLetters {} ys) y with hold | ⟨o, below, -, -, hnew⟩
    · rw [hold]
      exact ih hys
    · rw [hnew]
      refine List.pairwise_cons.mpr ⟨fun p hp => ?_, ih hys⟩
      obtain ⟨z, hz, hline⟩ := ((mem_closings_iff ys).mp hp).exists_line
      have hle := hlast z hz y List.mem_cons_self
      rw [← hline]
      exact hle

end Scope

/-! ## Extents -/

namespace Extents

variable {e : Extents} {line closed : Int}

theorem find?_ne_none_iff : e.find? line ≠ none ↔ ∃ closed, (line, closed) ∈ e.closings := by
  rw [find?, ne_eq, Option.map_eq_none_iff, List.find?_eq_none]
  simp

/-- Where later closings come first and reach further, the furthest is found. -/
theorem find?_eq_some_iff (h : e.closings.Pairwise fun p q => q.2 ≤ p.2) :
    e.find? line = some closed ↔
      (line, closed) ∈ e.closings ∧ ∀ c, (line, c) ∈ e.closings → c ≤ closed := by
  have hfurthest : ∀ {c}, e.find? line = some c →
      (line, c) ∈ e.closings ∧ ∀ d, (line, d) ∈ e.closings → d ≤ c := by
    intro c hfind
    obtain ⟨⟨l, c'⟩, hp, rfl⟩ := Option.map_eq_some_iff.mp hfind
    obtain ⟨hl, new, old, hsplit, hnew⟩ := List.find?_eq_some_iff_append.mp hp
    obtain rfl : l = line := by simpa using hl
    refine ⟨List.mem_of_find?_eq_some hp, fun d hd => ?_⟩
    rw [hsplit] at hd h
    rcases List.mem_append.mp hd with hd | hd
    · have hne := hnew _ hd
      simp at hne
    · rcases List.mem_cons.mp hd with heq | hd
      · cases heq
        exact Int.le_refl _
      · exact (List.pairwise_cons.mp (List.pairwise_append.mp h).2.1).1 _ hd
  refine ⟨hfurthest, fun ⟨hmem, hmost⟩ => ?_⟩
  obtain ⟨c, hc⟩ := Option.ne_none_iff_exists'.mp (find?_ne_none_iff.mpr ⟨closed, hmem⟩)
  obtain ⟨hmemc, hmostc⟩ := hfurthest hc
  have hle := hmost c hmemc
  have hge := hmostc closed hmem
  rw [hc, show c = closed by omega]

theorem closings_ofLines (lines : List Line) :
    (ofLines lines).closings =
      (Scope.readLetters {} (Letter.ofLines 1 lines)).extents.closings := by
  rw [ofLines, Scope.readLines_eq]

/-- The extents of a file are the pairs of its braces: a line has one iff a brace on it has a
partner, and it reaches to the furthest of these partners.  Extents do not cross. -/
theorem extents_are_pairs (lines : List Line) :
    (∀ line, (ofLines lines).find? line ≠ none ↔
      ∃ closed, Paired (Letter.ofLines 1 lines) line closed) ∧
    (∀ line closed, (ofLines lines).find? line = some closed ↔
      Paired (Letter.ofLines 1 lines) line closed ∧
        ∀ c, Paired (Letter.ofLines 1 lines) line c → c ≤ closed) ∧
    (∀ line closed, (ofLines lines).find? line = some closed →
      line ≤ closed ∧ closed ≤ lines.length) ∧
    (∀ outer inner e e', (ofLines lines).find? outer = some e → outer < inner → inner < e →
      (ofLines lines).find? inner = some e' → e' ≤ e) := by
  have hlines := Letter.ascending_ofLines 1 lines
  have hpairs : ∀ line closed, (line, closed) ∈ (ofLines lines).closings ↔
      Paired (Letter.ofLines 1 lines) line closed := by
    intro line closed
    rw [closings_ofLines]
    exact Scope.mem_closings_iff _
  have hfind : ∀ line closed, (ofLines lines).find? line = some closed ↔
      Paired (Letter.ofLines 1 lines) line closed ∧
        ∀ c, Paired (Letter.ofLines 1 lines) line c → c ≤ closed := by
    intro line closed
    have hlater := Scope.pairwise_closings hlines
    rw [← closings_ofLines] at hlater
    simp only [find?_eq_some_iff hlater, hpairs]
  refine ⟨fun line => ?_, hfind, fun line closed h => ?_,
    fun outer inner e e' he hlt hlt' he' => ?_⟩
  · simp only [find?_ne_none_iff, hpairs]
  · exact ((Scope.since_readLines lines).le_of_find? h).2
  · exact ((hfind outer e).mp he).1.closed_le hlines ((hfind inner e').mp he').1 hlt hlt'

/-- A function with a block that lies on one of its lines. -/
def nestedLines : List Line :=
  ["function f(u) \x7b".toList, "if (u) \x7b g(\x7b\x7d); \x7d".toList, "\x7d".toList]

theorem extents_are_pairs_sample :
    (ofLines nestedLines).find? 1 = some 3 ∧ Paired (Letter.ofLines 1 nestedLines) 1 3 ∧
      (ofLines nestedLines).find? 2 = some 2 ∧ Paired (Letter.ofLines 1 nestedLines) 2 2 := by
  obtain ⟨-, hfind, -, -⟩ := extents_are_pairs nestedLines
  have houter : (ofLines nestedLines).find? 1 = some 3 := by decide
  have hinner : (ofLines nestedLines).find? 2 = some 2 := by decide
  exact ⟨houter, ((hfind 1 3).mp houter).1, hinner, ((hfind 2 2).mp hinner).1⟩

end Extents

end NullAccess
