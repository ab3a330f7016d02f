import NullAccess.Proofs.Analysis.Prefix

/-!
# Names do not interfere

All names share one walk, one table of bindings and one order of the report, but nothing that
concerns a name depends on the bindings of another.  A scope without these (`Scope.only`) reads
lines, takes up bindings and looks the name up in the same way, so a walk for one name runs beside
the walk for all, line by line (`filter_walk`).
-/

namespace NullAccess

theorem filter_eraseDups (names : List String) (p : String → Bool) :
    names.eraseDups.filter p = (names.filter p).eraseDups := by
  induction names using List.reverseRecOn with
  | nil => rfl
  | append_singleton rest name ih =>
    rw [List.eraseDups_append, List.filter_append, List.filter_append, List.eraseDups_append, ih]
    congr 1
    by_cases hp : p name = true
    · by_cases hmem : name ∈ rest <;> simp [List.removeAll, hp, hmem]
    · by_cases hmem : name ∈ rest <;> simp [List.removeAll, hp, hmem]

/-! ## What a name sees of a scope -/

namespace Scope

/-- A scope without the bindings of other names. -/
def only (s : Scope) (name : String) : Scope :=
  { s with bindings := s.bindings.filter (·.name == name) }

theorem readLine_only (s : Scope) (name : String) (l : Line) (n : Int) :
    (s.only name).readLine l n = (s.readLine l n).only name := by
  rw [only, readLine_with, only, bindings_readLine]

theorem foldl_add_only (s : Scope) (name : String) (bs : List Binding) :
    (bs.filter (·.name == name)).foldl add (s.only name) = (bs.foldl add s).only name := by
  rw [foldl_add_eq, foldl_add_eq, only, only, List.filter_append, List.filter_reverse]

theorem lookup_only (s : Scope) (name : String) (depth : Nat) :
    (s.only name).lookup name depth = s.lookup name depth := by
  have hat : ∀ d : Int, (s.only name).at? name d = s.at? name d := by
    intro d
    rw [at?, at?, only, List.find?_filter]
    congr 1
    funext b
    rw [Bool.eq_iff_iff]
    simp
  induction depth with
  | zero => exact hat 0
  | succ d ih => rw [lookup, lookup, hat, ih]

end Scope

/-! ## The walk for one name -/

namespace Finding

variable {file : String} {scope : Scope} {n : Int} {raw : Line}

theorem finding?_only (s : Subject) :
    s.finding? file n raw (scope.only s.name) = s.finding? file n raw scope := by
  unfold Subject.finding?
  rw [show (scope.only s.name).depth = scope.depth from rfl, Scope.lookup_only]

/-- Of what is found on a line, a name's own part is found in the scope without the other names. -/
theorem filter_findings_on_line (subjects : List Subject) (name : String) :
    (subjects.filterMap (·.finding? file n raw scope)).filter (·.bindingName == name) =
      (subjects.filter (·.name == name)).filterMap (·.finding? file n raw (scope.only name)) := by
  rw [List.filter_filterMap, List.filterMap_filter]
  refine List.filterMap_congr fun s _ => ?_
  by_cases hname : s.name = name
  · subst hname
    rw [if_pos (beq_self_eq_true s.name), finding?_only]
    cases hfinding : s.finding? file n raw scope with
    | none => rfl
    | some f => simp [(line_of_finding? hfinding).2]
  · rw [if_neg (by simpa using hname)]
    cases hfinding : s.finding? file n raw scope with
    | none => rfl
    | some f => simp [(line_of_finding? hfinding).2, hname]

theorem filter_walk (file : String) (bindings : List Binding)
    (subjects : List Subject) (scope : Scope) (n : Int) (lines : List Line) (name : String) :
    (walk file bindings subjects scope n lines).filter (·.bindingName == name) =
      walk file (bindings.filter (·.name == name)) (subjects.filter (·.name == name))
        (scope.only name) n lines := by
  induction lines generalizing scope n with
  | nil => rfl
  | cons raw rest ih =>
    have hhere : ((bindings.filter (·.name == name)).filter (·.originLine == n)).foldl Scope.add
        ((scope.only name).readLine raw n) =
        ((bindings.filter (·.originLine == n)).foldl Scope.add (scope.readLine raw n)).only
          name := by
      rw [Scope.readLine_only, ← Scope.foldl_add_only, List.filter_filter, List.filter_filter]
      simp only [Bool.and_comm]
    rw [walk, walk, List.filter_append, hhere, ih, filter_findings_on_line]

theorem filter_subjectsOf (lines : List Line) (bindings : List Binding) (extents : Extents)
    (name : String) :
    (subjectsOf lines bindings extents).filter (·.name == name) =
      subjectsOf lines (bindings.filter (·.name == name)) extents := by
  have hnames : (bindings.filter (·.name == name)).map (·.name) =
      (bindings.map (·.name)).filter (· == name) := by
    rw [List.filter_map]
    rfl
  unfold subjectsOf
  rw [hnames, ← filter_eraseDups, List.filter_map]
  rfl

/-- The findings of a name are those that its own bindings give. -/
theorem findings_of_one_name (file : String) (lines : List Line) (bindings : List Binding)
    (extents : Extents) (name : String) :
    (generate file lines bindings extents).filter (·.bindingName == name) =
      generate file lines (bindings.filter (·.name == name)) extents := by
  have hperm : ((generate file lines bindings extents).filter (·.bindingName == name)).Perm
      (generate file lines (bindings.filter (·.name == name)) extents) := by
    refine ((List.mergeSort_perm _ before).filter _).trans ?_
    refine .trans (.of_eq ?_) (List.mergeSort_perm _ before).symm
    change (walk file bindings (subjectsOf lines bindings extents) {} 1 lines).filter _ = _
    rw [filter_walk, filter_subjectsOf]
    rfl
  exact eq_of_perm hperm ((pairwise_generate _ _ _ _).filter _) (pairwise_generate _ _ _ _)

end Finding

end NullAccess
