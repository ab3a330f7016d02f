import NullAccess.Proofs.Drift.Judgement

/-!
# One validator for many entries

A validator goes through entries in turn and keeps every file that it read, and every error, for the
entries after.  `verdicts_of_one_validator` says that nobody can tell: whatever the entries are and
in whichever order they come, each gets what a validator that has read nothing gives it, be that a
verdict or the fault that stops it.  The loop over a ledger, which ends at the first fault, is a
case of the same invariant.
-/

namespace NullAccess.Validator

/-- What one validator says to entries in turn.  A fault ends the check of its entry only, and what
was read up to then stays known. -/
def validateEach (v : Validator) (t : Tree) :
    List Entry → List (Except Fault ValidationResult) × Validator
  | [] => ([], v)
  | e :: rest =>
    let (verdict, v1) := v.validate t e
    let (verdicts, v2) := validateEach v1 t rest
    (verdict :: verdicts, v2)

theorem validateEach_cons (v : Validator) (t : Tree) (e : Entry) (rest : List Entry) :
    v.validateEach t (e :: rest) =
      ((v.validate t e).1 :: ((v.validate t e).2.validateEach t rest).1,
        ((v.validate t e).2.validateEach t rest).2) := rfl

theorem continues_validate (v : Validator) (t : Tree) (e : Entry) :
    Continues t v (v.validate t e).2 := by
  obtain ⟨w, h, hw⟩ := validate_eq v t e
  rwa [h]

/-- A later state of a validator says to every entry what the earlier one would have said. -/
theorem Continues.validateEach_fst {t : Tree} {v w : Validator} (h : Continues t v w)
    (es : List Entry) : (w.validateEach t es).1 = es.map fun e => (v.validate t e).1 := by
  -- Along the run the state changes, what it continues does not.
  induction es generalizing w with
  | nil => rfl
  | cons e rest ih =>
    have hrest := ih (h.trans (continues_validate w t e))
    rw [validateEach_cons, List.map_cons, h.validate_fst e, hrest]

/-- The loop that ends at the first fault gives the verdicts before it or the fault. -/
theorem Continues.validateEntries_fst {t : Tree} {v w : Validator} (h : Continues t v w)
    (es : List Entry) : (w.validateEntries t es).1 = es.mapM fun e => (v.validate t e).1 := by
  induction es generalizing w with
  | nil => rfl
  | cons e rest ih =>
    have hrest := ih (h.trans (continues_validate w t e))
    rw [List.mapM_cons, ← h.validate_fst e, ← hrest, validateEntries]
    obtain ⟨verdict, v1⟩ := w.validate t e
    cases verdict with
    | error f => rfl
    | ok r =>
      simp only [bind, Except.bind]
      rcases v1.validateEntries t rest with ⟨_ | rs, v2⟩ <;> rfl

/-- The cache of a validator does not show.  Over files that stay as they are, one validator gives
to the entries of any list, in turn, what a validator that has read nothing gives to each of them:
the same verdict down to the text of a file error, or the same fault.  And a run that ends at the
first fault ends with it, or else with the verdicts of such validators. -/
theorem verdicts_of_one_validator (t : Tree) (root : Path) (enforce : Bool) (es : List Entry) :
    (({ root, enforce } : Validator).validateEach t es).1 =
        es.map (fun e => (({ root, enforce } : Validator).validate t e).1) ∧
      (({ root, enforce } : Validator).validateEntries t es).1 =
        es.mapM fun e => (({ root, enforce } : Validator).validate t e).1 :=
  ⟨(Continues.refl t _).validateEach_fst es, (Continues.refl t _).validateEntries_fst es⟩

end NullAccess.Validator
