/-!
# Signed positions

A position in a sequence may be negative and then counts back from the end.  Cuts clamp to the
sequence; a single element is there or not.
-/

namespace NullAccess.Text

/-- The cut that `i` names in a sequence of length `n`: a negative one counts back from the end,
and a cut beyond either end is at that end. -/
def cut (n : Nat) (i : Int) : Nat :=
  if i < 0 then (n + i).toNat else min i.toNat n

theorem cut_le (n : Nat) (i : Int) : cut n i ≤ n := by
  unfold cut; split <;> omega

variable {α : Type}

def takeTo (xs : List α) (i : Int) : List α := xs.take (cut xs.length i)

def dropTo (xs : List α) (i : Int) : List α := xs.drop (cut xs.length i)

def slice (xs : List α) (i j : Int) : List α :=
  (xs.take (cut xs.length j)).drop (cut xs.length i)

/-- The element at `i`, counted from the end when `i` is negative. -/
def at? (xs : List α) (i : Int) : Option α :=
  if 0 ≤ i then xs[i.toNat]?
  else if -i ≤ xs.length then xs[(xs.length + i).toNat]? else none

theorem takeTo_append_dropTo (xs : List α) (i : Int) : takeTo xs i ++ dropTo xs i = xs := by
  simp [takeTo, dropTo]

theorem takeTo_ofNat (xs : List α) (k : Nat) : takeTo xs k = xs.take k := by
  simp only [takeTo, cut]
  split
  · omega
  · simp [List.take_eq_take_iff]

theorem dropTo_ofNat (xs : List α) (k : Nat) : dropTo xs k = xs.drop k := by
  simp only [dropTo, cut]
  split
  · omega
  · rcases Nat.le_total k xs.length with h | h
    · simp [Nat.min_eq_left h]
    · simp [Nat.min_eq_right h, List.drop_eq_nil_of_le h]

theorem at?_ofNat (xs : List α) (k : Nat) : at? xs k = xs[k]? := by
  simp [at?]

end NullAccess.Text
