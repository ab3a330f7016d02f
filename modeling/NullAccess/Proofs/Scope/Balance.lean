import Mathlib.Data.List.Infix
import NullAccess.Proofs.Scope.Letters

/-!
# The braces of a run

Whatever lines a scope reads, and whatever is declared and looked up in between, its depth is the
balance of the braces read, counted from the lowest balance on the way: a brace that closes nothing
lowers the ground by one, and is the only thing that warns (`Counted`).  Its openings carry their
own height, and on lines that do not go back their lines do not fall from the outermost on
(`Stacked`).

A scope reads its depth and the opening lines off one list.  A tally keeps a number and two lists,
each changed by itself, and never disagrees with the scope (`Tally.run_ofScope`).
-/

namespace NullAccess

/-! ## Balances -/

namespace Braces

/-- How many more braces a text opens than it closes. -/
def balance (t : List Char) : Int := (t.count '{' : Int) - t.count '}'

/-- The lowest balance of the beginnings of a text, and never above zero. -/
def lowest (t : List Char) : Int := (t.inits.map balance).foldl min 0

theorem balance_append (t r : List Char) : balance (t ++ r) = balance t + balance r := by
  simp only [balance, List.count_append]
  omega

theorem balance_open : balance ['{'] = 1 := by decide

theorem balance_close : balance ['}'] = -1 := by decide

theorem balance_other {c : Char} (hopen : c ≠ '{') (hclose : c ≠ '}') : balance [c] = 0 := by
  simp [balance, hopen, hclose]

theorem lowest_concat (t : List Char) (c : Char) :
    lowest (t ++ [c]) = min (lowest t) (balance (t ++ [c])) := by
  simp [lowest, List.inits_append]

end Braces

open Braces

/-! ## Runs -/

/-- What is done with a scope: it reads a line, takes up a binding, or is asked for a name, from a
depth or from its own. -/
inductive Move where
  | line (l : Line) (n : Int)
  | add (b : Binding)
  | lookup (name : String) (depth : Option Int)

namespace Move

def text : Move → List Char
  | line l _ => l
  | add _ | lookup _ _ => []

def number? : Move → Option Int
  | line _ n => some n
  | add _ | lookup _ _ => none

end Move

namespace Scope

variable {s : Scope} {t : List Char} {ahead : List Int}

/-- The state after a move.  Being asked for a name does not change it. -/
def after (s : Scope) : Move → Scope
  | .line l n => s.readLine l n
  | .add b => s.add b
  | .lookup _ _ => s

def run (s : Scope) (moves : List Move) : Scope := moves.foldl after s

/-! ## Depth and warnings -/

/-- A scope whose depth and warnings are those of a text. -/
structure Counted (t : List Char) (s : Scope) : Prop where
  depth_eq : (s.depth : Int) = balance t - lowest t
  warnings_eq : (s.warnings.length : Int) = -lowest t

theorem Counted.readLetter (h : Counted t s) (x : Letter) :
    Counted (t ++ [x.char]) (s.readLetter x) := by
  obtain ⟨hdepth, hwarnings⟩ := h
  have hlowest := lowest_concat t x.char
  rw [balance_append] at hlowest
  obtain ⟨hc, hs⟩ | ⟨o, below, hc, hstack, hs⟩ | ⟨hc, hstack, hs⟩ | ⟨hopen, hclose, hs⟩ :=
    readLetter_cases s x
  · rw [hc, balance_open] at hlowest
    have hdepth' : (s.readLetter x).depth = s.depth + 1 := by rw [hs]; rfl
    refine ⟨?_, ?_⟩
    · rw [balance_append, hc, balance_open]
      omega
    · rw [hs, hc]
      dsimp only
      omega
  · rw [hc, balance_close] at hlowest
    have hbefore : s.depth = (s.readLetter x).depth + 1 := by rw [hs, depth, hstack]; rfl
    refine ⟨?_, ?_⟩
    · rw [balance_append, hc, balance_close]
      omega
    · rw [hs, hc]
      dsimp only
      omega
  · -- Nothing is open, so the balance is at its lowest and goes below it.
    rw [hc, balance_close] at hlowest
    have hbefore : s.depth = 0 := by rw [depth, hstack]; rfl
    have hdepth' : (s.readLetter x).depth = 0 := by rw [hs, depth, hstack]; rfl
    refine ⟨?_, ?_⟩
    · rw [balance_append, hc, balance_close]
      omega
    · rw [hs, hc]
      dsimp only
      rw [List.length_append, List.length_singleton]
      omega
  · rw [balance_other hopen hclose] at hlowest
    refine ⟨?_, ?_⟩
    · rw [balance_append, balance_other hopen hclose, hs]
      omega
    · rw [hs]
      omega

theorem Counted.readLetters (h : Counted t s) (xs : List Letter) :
    Counted (t ++ xs.map (·.char)) (s.readLetters xs) := by
  induction xs generalizing t s with
  | nil => rwa [List.map_nil, List.append_nil]
  | cons x rest ih =>
    have hrest := ih (h.readLetter x)
    rwa [List.append_assoc] at hrest

theorem Counted.after (h : Counted t s) (m : Move) : Counted (t ++ m.text) (s.after m) := by
  cases m with
  | line l n =>
    have hline := h.readLetters (Letter.ofLine l n)
    rw [Letter.map_char_ofLine, ← readLine_eq] at hline
    exact hline
  | add b => rw [Move.text, List.append_nil]; exact ⟨h.depth_eq, h.warnings_eq⟩
  | lookup name depth => rw [Move.text, List.append_nil]; exact h

theorem Counted.run (h : Counted t s) (moves : List Move) :
    Counted (t ++ moves.flatMap Move.text) (s.run moves) := by
  induction moves generalizing t s with
  | nil => rwa [List.flatMap_nil, List.append_nil]
  | cons m rest ih =>
    have hrest := ih (h.after m)
    rwa [List.append_assoc, ← List.flatMap_cons] at hrest

/-! ## Openings -/

/-- A scope whose openings carry their own height and, from the outermost on, stand on lines that do
not fall, below all lines ahead. -/
structure Stacked (ahead : List Int) (s : Scope) : Prop where
  height : ∀ (i : Nat) o, s.openings.reverse[i]? = some o → o.depth = i + 1
  ordered : s.openings.Pairwise fun a b => b.line ≤ a.line
  bounded : ∀ o ∈ s.openings, ∀ n ∈ ahead, o.line ≤ n

theorem Stacked.readLetter {x : Letter} (h : Stacked ahead s) (hx : x.line ∈ ahead)
    (hahead : ∀ n ∈ ahead, x.line ≤ n) : Stacked ahead (s.readLetter x) := by
  obtain ⟨-, hs⟩ | ⟨o, below, -, hstack, hs⟩ | ⟨-, -, hs⟩ | ⟨-, -, hs⟩ := readLetter_cases s x
  · rw [hs]
    refine ⟨fun i o ho => ?_, ?_, ?_⟩
    · have hlength : s.openings.reverse.length = s.depth := List.length_reverse
      rw [List.reverse_cons] at ho
      rcases Nat.lt_or_ge i s.depth with hlt | hge
      · rw [List.getElem?_append_left (by omega)] at ho
        exact h.height i o ho
      · rw [List.getElem?_append_right (by omega), List.getElem?_singleton] at ho
        split at ho
        · cases ho
          dsimp only
          omega
        · cases ho
    · exact List.pairwise_cons.mpr ⟨fun o ho => h.bounded o ho x.line hx, h.ordered⟩
    · exact List.forall_mem_cons.mpr ⟨hahead, h.bounded⟩
  · obtain ⟨hheight, hordered, hbounded⟩ := h
    rw [hstack] at hheight hordered hbounded
    rw [hs]
    refine ⟨fun i o' ho => hheight i o' ?_, (List.pairwise_cons.mp hordered).2,
      (List.forall_mem_cons.mp hbounded).2⟩
    have hlt : i < below.reverse.length := (List.getElem?_eq_some_iff.mp ho).1
    rw [List.reverse_cons, List.getElem?_append_left hlt]
    exact ho
  · rw [hs]
    exact ⟨h.height, h.ordered, h.bounded⟩
  · rw [hs]
    exact h

theorem Stacked.readLetters {xs : List Letter} (h : Stacked ahead s)
    (hxs : ∀ x ∈ xs, x.line ∈ ahead ∧ ∀ n ∈ ahead, x.line ≤ n) :
    Stacked ahead (s.readLetters xs) := by
  induction xs generalizing s with
  | nil => exact h
  | cons x rest ih =>
    obtain ⟨⟨hx, hahead⟩, hrest⟩ := List.forall_mem_cons.mp hxs
    exact ih (h.readLetter hx hahead) hrest

/-- Along a run the next line is the lowest of those ahead. -/
theorem Stacked.run {moves : List Move} (hnumbers : (moves.filterMap Move.number?).Pairwise (· ≤ ·))
    (h : Stacked (moves.filterMap Move.number?) s) : Stacked [] (s.run moves) := by
  induction moves generalizing s with
  | nil => exact h
  | cons m rest ih =>
    cases m with
    | line l n =>
      obtain ⟨hfirst, hrest⟩ := List.pairwise_cons.mp hnumbers
      have hread : Stacked (n :: rest.filterMap Move.number?) (s.readLine l n) := by
        rw [readLine_eq]
        refine Stacked.readLetters h fun x hx => ?_
        rw [Letter.line_of_mem_ofLine hx]
        exact ⟨List.mem_cons_self, List.forall_mem_cons.mpr ⟨Int.le_refl n, hfirst⟩⟩
      exact ih hrest ⟨hread.height, hread.ordered,
        fun o ho m hm => hread.bounded o ho m (List.mem_cons_of_mem n hm)⟩
    | add b => exact ih hnumbers ⟨h.height, h.ordered, h.bounded⟩
    | lookup name depth => exact ih hnumbers h

end Scope

/-! ## Tallies -/

/-- A walk that keeps apart what a scope reads off its openings: a number for the depth, the open
braces, and the lines on which they stand. -/
structure Tally where
  depth : Int := 0
  /-- Depth, line and beginning of the line for each open brace, innermost first. -/
  frames : List (Int × Int × String) := []
  opened : List Int := []
  bindings : List Binding := []
  extents : Extents := {}
  warnings : List String := []

namespace Tally

/-- The tally after one character of a line.  Whether a brace closes something is read off the
number alone. -/
def step (line : Int) (text : String) (t : Tally) (c : Char) : Tally :=
  if c = '{' then
    { t with depth := t.depth + 1, frames := (t.depth + 1, line, text) :: t.frames,
             opened := line :: t.opened }
  else if c = '}' then
    if t.depth = 0 then { t with warnings := t.warnings ++ [Scope.unbalanced line] }
    else
      { t with depth := t.depth - 1, frames := t.frames.tail, opened := t.opened.tail,
               extents := match t.opened with
                 | [] => t.extents
                 | o :: _ => t.extents.insert o line }
  else t

def after (t : Tally) : Move → Tally
  | .line l n => l.foldl (step n (Scope.snippet l)) t
  | .add b => { t with bindings := b :: t.bindings }
  | .lookup _ _ => t

def run (t : Tally) (moves : List Move) : Tally := moves.foldl after t

/-- The number and the lists that a scope stands for. -/
def ofScope (s : Scope) : Tally where
  depth := s.depth
  frames := s.openings.map fun o => (o.depth, o.line, o.snippet)
  opened := s.openings.map (·.line)
  bindings := s.bindings
  extents := s.extents
  warnings := s.warnings

theorem step_ofScope (n : Int) (text : String) (s : Scope) (c : Char) :
    step n text (ofScope s) c = ofScope (s.step n text c) := by
  unfold step Scope.step
  by_cases hopen : c = '{'
  · rw [if_pos hopen, if_pos hopen]
    simp [ofScope, Scope.depth]
  · rw [if_neg hopen, if_neg hopen]
    by_cases hclose : c = '}'
    · rw [if_pos hclose, if_pos hclose]
      cases hstack : s.openings with
      | nil => simp [ofScope, Scope.depth, hstack]
      | cons o below =>
        have hdepth : ((below.length : Int) + 1 = 0) = False := by
          rw [eq_iff_iff, iff_false]
          omega
        simp [ofScope, Scope.depth, hstack, hdepth]
    · rw [if_neg hclose, if_neg hclose]

theorem after_ofScope (s : Scope) (m : Move) : (ofScope s).after m = ofScope (s.after m) := by
  cases m with
  | line l n =>
    unfold after Scope.after Scope.readLine
    dsimp only
    generalize Scope.snippet l = text
    induction l generalizing s with
    | nil => rfl
    | cons c rest ih => rw [List.foldl_cons, List.foldl_cons, step_ofScope, ih]
  | add b => rfl
  | lookup name depth => rfl

/-- A tally that starts as a scope stays as the scope. -/
theorem run_ofScope (s : Scope) (moves : List Move) :
    (ofScope s).run moves = ofScope (s.run moves) := by
  induction moves generalizing s with
  | nil => rfl
  | cons m rest ih =>
    rw [run, List.foldl_cons, after_ofScope]
    exact ih (s.after m)

/-- A number and two lists that are in step.  Positions are counted from the outermost brace. -/
structure InStep (t : Tally) : Prop where
  frames_length : t.depth = t.frames.length
  opened_length : t.depth = t.opened.length
  nonneg : 0 ≤ t.depth
  frame : ∀ (i : Nat) f, t.frames.reverse[i]? = some f →
    f.1 = i + 1 ∧ t.opened.reverse[i]? = some f.2.1
  ordered : t.opened.reverse.Pairwise (· ≤ ·)

theorem inStep_ofScope {s : Scope} (h : s.Stacked []) : (ofScope s).InStep := by
  refine ⟨?_, ?_, ?_, fun i f hf => ?_, ?_⟩
  · simp [ofScope, Scope.depth]
  · simp [ofScope, Scope.depth]
  · exact Int.natCast_nonneg s.depth
  · dsimp only [ofScope] at hf ⊢
    rw [← List.map_reverse, List.getElem?_map] at hf ⊢
    obtain ⟨o, ho, rfl⟩ := Option.map_eq_some_iff.mp hf
    rw [h.height i o ho, ho]
    exact ⟨by norm_cast, rfl⟩
  · rw [List.pairwise_reverse, ofScope, List.pairwise_map]
    exact h.ordered

end Tally

/-! ## The invariant of a run -/

namespace Scope

/-- Number and lists stay in step along every run over lines that do not go back; depth and warnings
are those of the text that was read. -/
theorem braces_stay_in_step (moves : List Move)
    (hnumbers : (moves.filterMap Move.number?).Pairwise (· ≤ ·)) :
    Tally.run {} moves = Tally.ofScope (run {} moves) ∧ (Tally.run {} moves).InStep ∧
      ((run {} moves).depth : Int) =
        balance (moves.flatMap Move.text) - lowest (moves.flatMap Move.text) ∧
      ((run {} moves).warnings.length : Int) = -lowest (moves.flatMap Move.text) := by
  have htally : Tally.run {} moves = Tally.ofScope (run {} moves) := Tally.run_ofScope {} moves
  have hfresh : Stacked (moves.filterMap Move.number?) {} :=
    ⟨fun i o ho => by simp at ho, .nil, List.forall_mem_nil _⟩
  have hcounted : Counted [] {} := ⟨by decide, by decide⟩
  have hrun := hcounted.run moves
  rw [htally]
  exact ⟨rfl, Tally.inStep_ofScope (hfresh.run hnumbers), hrun.depth_eq, hrun.warnings_eq⟩

/-- A line that begins with a brace that closes nothing, then two lines with one number. -/
def strayMoves : List Move :=
  [.line "\x7d \x7b".toList 1, .add { name := "u", originLine := 1, kind := .parameter },
    .line "if (u) \x7b \x7b".toList 3, .lookup "u" none, .line "\x7d".toList 3]

theorem braces_stay_in_step_sample :
    (strayMoves.filterMap Move.number?).Pairwise (· ≤ ·) ∧ (Tally.run {} strayMoves).InStep ∧
      (run {} strayMoves).depth = 2 ∧ (run {} strayMoves).warnings.length = 1 := by
  have hnumbers : (strayMoves.filterMap Move.number?).Pairwise (· ≤ ·) := by decide
  obtain ⟨-, hstep, hdepth, hwarnings⟩ := braces_stay_in_step strayMoves hnumbers
  have hbalance : balance (strayMoves.flatMap Move.text) = 1 := by decide
  have hlowest : lowest (strayMoves.flatMap Move.text) = -1 := by decide
  rw [hbalance, hlowest] at hdepth
  rw [hlowest] at hwarnings
  exact ⟨hnumbers, hstep, by omega, by omega⟩

end Scope

end NullAccess
