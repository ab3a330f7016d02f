import Mathlib.Data.List.Find
import NullAccess.Proofs.Indent.Guards

/-!
# Accesses behind a margin

Code between blanks makes the accesses that it makes alone, and guards the names that it guards
alone (`first?_pads`, `isGuarded_pads`).

A condition that the code leaves open goes to the end, so where blanks follow the code it ends
further on.  No access begins there.
-/

namespace NullAccess.Access

open Text Pattern

variable {name t u w : List Char}

/-! ## Conditions -/

/-- Whether a parenthesis is still open at a column does not depend on what follows. -/
theorem lt_closeLength_append {col : Nat} (h : col < t.length) (depth : Nat) (w : List Char) :
    col < closeLength depth (t ++ w) ↔ col < closeLength depth t := by
  induction t generalizing col depth with
  | nil => cases h
  | cons c r ih =>
    cases depth with
    | zero => rw [closeLength, closeLength]
    | succ depth =>
      rw [List.cons_append, closeLength, closeLength]
      cases col with
      | zero => omega
      | succ col =>
        have hrest := ih (Nat.lt_of_succ_lt_succ h)
          (if c = '(' then depth + 2 else if c = ')' then depth else depth + 1)
        omega

theorem within_pads (hu : IsPad u) (hw : IsPad w) {col : Nat} (hcol : col < t.length) :
    within (col + u.length) (conditionSpans (u ++ t ++ w)) = within col (conditionSpans t) := by
  rw [conditionSpans, conditionSpans, findAll_pads steady_conditionStart (by decide +kernel) hu hw,
    within, within, Bool.eq_iff_iff]
  simp only [List.any_map, List.any_eq_true, Function.comp_apply,
    Bool.and_eq_true, decide_eq_true_eq, Match.stopCol_between]
  refine exists_congr fun m => and_congr_right fun hm => ?_
  have hlength := (isMatch_of_mem_findAll hm).stopCol_add_after
  have hafter : (m.between u w).last.after = m.last.after ++ w := rfl
  by_cases hstop : m.stopCol ≤ col
  · have hclose := lt_closeLength_append (show col - m.stopCol < m.last.after.length by omega) 1 w
    rw [hafter]
    omega
  · omega

/-! ## Dereferences -/

theorem lt_of_first? {kind : AccessKind} {col : Nat} (h : first? name t = some (kind, col)) :
    col < t.length := by
  obtain ⟨sep, r, hdrop, -⟩ := (refersAt_of_first? h).here
  have hlength := congrArg List.length hdrop
  rw [List.length_drop, List.length_append, List.length_cons] at hlength
  omega

section Named

variable (hname : IsInk name) (hu : IsPad u) (hw : IsPad w)

include hname hu hw

theorem first?_pads (t : List Char) :
    first? name (u ++ t ++ w) = (first? name t).map fun (kind, col) => (kind, col + u.length) := by
  have hsteady := steady_of_name hname
  have hreads : (member name).reads = true := Bool.or_true (Guard.reference name).reads
  have hmembers : ((member name).findAll (u ++ t ++ w)).map Match.startCol =
      (((member name).findAll t).map Match.startCol).map (· + u.length) := by
    rw [findAll_pads (hsteady _ (by simp)) hreads hu hw, List.map_map, List.map_map]
    exact List.map_congr_left fun m _ => Match.startCol_between u w m
  have hwithin : ∀ col ∈ ((member name).findAll t).map Match.startCol,
      within (col + u.length) (conditionSpans (u ++ t ++ w)) = within col (conditionSpans t) := by
    intro col hcol
    obtain ⟨m, hm, rfl⟩ := List.mem_map.mp hcol
    exact within_pads hu hw ((isMatch_of_mem_findAll hm).startCol_lt hreads)
  rw [first?, first?, find?_pads (hsteady _ (by simp)) hu hw,
    find?_pads (hsteady _ (by simp)) hu hw]
  cases (methodCall name).find? t with
  | some m => simp only [Option.map_some, Match.startCol_between]
  | none =>
    dsimp only [Option.map_none]
    rw [hmembers]
    generalize ((member name).findAll t).map Match.startCol = members at hwithin ⊢
    have houtside : (members.map (· + u.length)).find? (!within · (conditionSpans (u ++ t ++ w))) =
        (members.find? (!within · (conditionSpans t))).map (· + u.length) := by
      rw [List.find?_map]
      refine congrArg _ (List.find?_congr fun col hcol => ?_)
      exact congrArg (!·) (hwithin col hcol)
    rw [houtside]
    cases members.find? (!within · (conditionSpans t)) with
    | some col => rfl
    | none =>
      cases (index name).find? t with
      | some m => simp only [Option.map_some, Option.map_none, Match.startCol_between]
      | none =>
        simp only [Option.map_none, List.head?_map, Option.map_map]
        rfl

/-! ## Guards on the line itself -/

theorem ifGuardPrecedes_pads (t : List Char) :
    ifGuardPrecedes name (u ++ t ++ w) = ifGuardPrecedes name t := by
  have hsteady := steady_of_name hname
  rw [ifGuardPrecedes, ifGuardPrecedes, find?_pads (steady_ifGuard hname) hu hw]
  cases (ifGuard name).find? t with
  | none => rfl
  | some m =>
    have hlast : (m.between u w).last = (m.last.trail w).indent u := rfl
    simp only [Option.map_some, hlast, findFrom_pads (hsteady (member name) (by simp)) hu hw,
      findFrom_pads (hsteady (index name) (by simp)) hu hw, Option.isSome_map]

theorem isGuarded_pads (t : List Char) : isGuarded name (u ++ t ++ w) = isGuarded name t := by
  have hsteady := steady_of_name hname
  rw [isGuarded, isGuarded, occursIn_pads (hsteady _ (by simp)) hu hw,
    occursIn_pads (hsteady _ (by simp)) hu hw, occursIn_pads (hsteady _ (by simp)) hu hw,
    occursIn_pads (steady_conjunction hname) hu hw, ifGuardPrecedes_pads hname hu hw]

end Named

end NullAccess.Access
