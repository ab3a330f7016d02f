import NullAccess.Proofs.Analysis.Findings
import NullAccess.Proofs.Analysis.Zones

/-!
# The findings of a complete part of a file

Where no brace is open, nothing that follows changes what was found before.  A line declares the
same whatever follows, and what is declared later takes effect later; names that come up later have
no binding before; the same places are safe; and no `try` block reaches back.  Only a line that ends
the analysis takes the findings before it along (`findings_of_complete_part`).
-/

namespace NullAccess

/-! ## Declarations -/

/-- The number behind the lines from line `n` on. -/
theorem add_length_cons (n : Int) (l : Line) (rest : List Line) :
    n + ((l :: rest).length : Int) = n + 1 + rest.length := by
  rw [List.length_cons]
  omega

theorem Classifier.classify_append {part : List Line} {n : Int} (hn : 1 ≤ n ∧ n ≤ part.length)
    (more : List Line) (k : Classifier) (code : Line) (depth : Int) :
    k.classify code n depth (part ++ more) = k.classify code n depth part := by
  have hchecked : ∀ path index,
      isLengthChecked path index n (part ++ more) = isLengthChecked path index n part := by
    intro path index
    unfold isLengthChecked lengthWindow
    dsimp only
    rw [Text.slice_append part more (by omega) (by omega)]
  unfold classify ofVariable isCheckedRead
  simp only [hchecked]

namespace Scope

theorem readLine_with (s : Scope) (bs : List Binding) (l : Line) (n : Int) :
    ({ s with bindings := bs } : Scope).readLine l n = { s.readLine l n with bindings := bs } := by
  unfold readLine
  generalize snippet l = text
  induction l generalizing s with
  | nil => rfl
  | cons c rest ih =>
    have hstep :
        step n text { s with bindings := bs } c = { step n text s c with bindings := bs } := by
      unfold step depth
      split
      · rfl
      · split
        · dsimp only
          split <;> rfl
        · rfl
    rw [List.foldl_cons, List.foldl_cons, hstep, ih]

theorem readLines_with (s : Scope) (bs : List Binding) (n : Int) (ls : List Line) :
    ({ s with bindings := bs } : Scope).readLines n ls =
      { s.readLines n ls with bindings := bs } := by
  induction ls generalizing s n with
  | nil => rfl
  | cons l rest ih => rw [readLines, readLine_with, ih, readLines]

end Scope

namespace Declarations

variable {k : Classifier} {all part lines ls p q : List Line} {d d' : Declarations} {n : Int}

/-- Declarations do not move braces. -/
theorem scope_of_readLines (h : readLines k all d n lines = .ok d') :
    ∃ bs, d'.scope = { d.scope.readLines n lines with bindings := bs } := by
  induction lines generalizing d n with
  | nil =>
    cases h
    exact ⟨d'.scope.bindings, rfl⟩
  | cons raw rest ih =>
    obtain ⟨d₁, hfirst, hrest⟩ := readLines_cons_eq_ok h
    obtain ⟨found, -, hscope, -⟩ := readLine_eq_ok hfirst
    obtain ⟨bs, hbs⟩ := ih hrest
    rw [hscope, Scope.foldl_add_eq, Scope.readLines_with] at hbs
    exact ⟨bs, hbs⟩

theorem extents_of_ofLines (h : ofLines k lines = .ok d) :
    d.scope.extents = Extents.ofLines lines := by
  obtain ⟨bs, hbs⟩ := scope_of_readLines h
  rw [hbs]
  rfl

theorem readLines_append_eq_ok (h : readLines k all d n (p ++ q) = .ok d') :
    ∃ d₁, readLines k all d n p = .ok d₁ ∧ readLines k all d₁ (n + p.length) q = .ok d' := by
  induction p generalizing d n with
  | nil => exact ⟨d, rfl, by simpa using h⟩
  | cons raw rest ih =>
    obtain ⟨d₁, hfirst, hrest⟩ := readLines_cons_eq_ok h
    obtain ⟨d₂, hp, hq⟩ := ih hrest
    refine ⟨d₂, ?_, by rw [add_length_cons]; exact hq⟩
    rw [readLines, hfirst]
    exact hp

/-- Of the file around them, the lines of a part look only at the lines before them. -/
theorem readLines_of_append (hn : 1 ≤ n) (hlast : n + ls.length ≤ part.length + 1)
    (more : List Line) : readLines k (part ++ more) d n ls = readLines k part d n ls := by
  induction ls generalizing d n with
  | nil => rfl
  | cons raw rest ih =>
    rw [List.length_cons] at hlast
    have hfirst : d.readLine k (part ++ more) raw n = d.readLine k part raw n := by
      unfold readLine
      simp only [Classifier.classify_append (show 1 ≤ n ∧ n ≤ part.length by omega) more]
    rw [readLines, readLines, hfirst]
    cases d.readLine k part raw n with
    | error e => rfl
    | ok d₁ => exact ih (by omega) (by omega)

theorem ofLines_append (h : ofLines k (p ++ q) = .ok d) :
    ∃ d₁ later, ofLines k p = .ok d₁ ∧ d.declared = d₁.declared ++ later ∧
      ∀ b ∈ later, p.length < b.originLine := by
  obtain ⟨d₁, hp, hq⟩ := readLines_append_eq_ok h
  rw [readLines_of_append (by omega) (by omega)] at hp
  obtain ⟨later, hlater, horigin⟩ := declared_of_readLines hq
  refine ⟨d₁, later, hp, hlater, fun b hb => ?_⟩
  obtain ⟨i, -, -, -, hline, -⟩ := horigin b hb
  omega

end Declarations

/-! ## Findings -/

namespace Finding

variable {file : String} {part more lines ls : List Line} {own whole extents : Extents}
  {bindings later : List Binding} {scope : Scope} {n line : Int} {raw : Line} {name : String}

/-- The names that are looked for in a file. -/
def subjectsOf (lines : List Line) (bindings : List Binding) (extents : Extents) : List Subject :=
  (bindings.map (·.name)).eraseDups.map fun name => ⟨name, Guard.findZones lines name extents⟩

theorem finding?_congr {zs zs' : List SafeZone}
    (h : ∀ first col, Guard.isSafe zs first n col = Guard.isSafe zs' first n col) :
    Subject.finding? ⟨name, zs⟩ file n raw scope =
      Subject.finding? ⟨name, zs'⟩ file n raw scope := by
  unfold Guard.isSafe at h
  unfold Subject.finding? Subject.findingFor
  simp only [h]

/-- The finding that an access at a column makes. -/
def report (s : Subject) (file : String) (n : Int) (raw : Line) (b : Binding) (kind : AccessKind)
    (col : Int) : Finding :=
  { file := file, line := n, col := col, bindingName := s.name, accessKind := kind,
    severity := kind.severity, sourceLine := String.ofList (Text.trim raw), bindingKind := b.kind,
    bindingLine := b.originLine, reason := b.reason }

theorem findingFor_of_offset {b : Binding} (s : Subject) (file : String) (raw : Line) {offset : Nat}
    (h : (if b.originLine = n then b.originCol else 0) = offset) :
    s.findingFor file n raw b =
      if Access.isGuarded s.name.toList ((Source.code raw).drop offset) then none
      else
        (Access.first? s.name.toList ((Source.code raw).drop offset)).bind fun found =>
          if Guard.isSafe s.zones b.originLine n (found.2 + offset : Nat) then none
          else some (report s file n raw b found.1 (found.2 + offset : Nat)) := by
  unfold Subject.findingFor
  dsimp only
  rw [h, Text.dropTo_ofNat]
  congr 1
  cases Access.first? s.name.toList ((Source.code raw).drop offset) <;> rfl

theorem finding?_of_unbound {s : Subject} (h : ∀ b ∈ scope.bindings, b.name ≠ s.name) :
    s.finding? file n raw scope = none := by
  have hnone : scope.lookup s.name scope.depth = none := by
    cases hlookup : scope.lookup s.name scope.depth with
    | none => rfl
    | some b =>
      obtain ⟨hb, hname⟩ := Scope.mem_of_lookup hlookup
      exact absurd hname (h b hb)
  unfold Subject.finding?
  rw [hnone, Option.bind_none, ite_self]

/-- On a line of a complete part, the names of later declarations are not bound yet, and the others
are safe where they were. -/
theorem filterMap_subjects_append (h : Complete part own whole)
    (hscope : ∀ b ∈ scope.bindings, b ∈ bindings) (hn : n ≤ part.length) (more : List Line)
    (later : List Binding) :
    (subjectsOf (part ++ more) (bindings ++ later) whole).filterMap
        (·.finding? file n raw scope) =
      (subjectsOf part bindings own).filterMap (·.finding? file n raw scope) := by
  unfold subjectsOf
  rw [List.map_append, List.eraseDups_append, List.map_append, List.filterMap_append]
  have hold : ((bindings.map (·.name)).eraseDups.map fun name =>
        (⟨name, Guard.findZones (part ++ more) name whole⟩ : Subject)).filterMap
        (·.finding? file n raw scope) =
      ((bindings.map (·.name)).eraseDups.map fun name =>
        (⟨name, Guard.findZones part name own⟩ : Subject)).filterMap
        (·.finding? file n raw scope) := by
    rw [List.filterMap_map, List.filterMap_map]
    refine List.filterMap_congr fun name _ => ?_
    exact finding?_congr fun first col => Guard.isSafe_findZones_append h hn more name
  have hnew : (((later.map (·.name)).removeAll (bindings.map (·.name))).eraseDups.map fun name =>
        (⟨name, Guard.findZones (part ++ more) name whole⟩ : Subject)).filterMap
        (·.finding? file n raw scope) = [] := by
    rw [List.filterMap_eq_nil_iff]
    intro s hs
    obtain ⟨name, hname, rfl⟩ := List.mem_map.mp hs
    rw [(eraseDups_spec _).2] at hname
    refine finding?_of_unbound fun b hb heq => ?_
    have hnot : name ∉ bindings.map (·.name) := by
      simpa [List.removeAll] using (List.mem_filter.mp hname).2
    exact hnot (List.mem_map.mpr ⟨b, hscope b hb, heq⟩)
  rw [hold, hnew, List.append_nil]

theorem walk_of_append (h : Complete part own whole)
    (hlater : ∀ b ∈ later, part.length < b.originLine) (hscope : ∀ b ∈ scope.bindings, b ∈ bindings)
    (hlast : n + ls.length ≤ part.length + 1) (more : List Line) :
    walk file (bindings ++ later) (subjectsOf (part ++ more) (bindings ++ later) whole) scope n ls =
      walk file bindings (subjectsOf part bindings own) scope n ls := by
  induction ls generalizing scope n with
  | nil => rw [walk, walk]
  | cons raw rest ih =>
    rw [List.length_cons] at hlast
    have hnone : later.filter (·.originLine == n) = [] := by
      rw [List.filter_eq_nil_iff]
      intro b hb heq
      have hline := hlater b hb
      have hsame : b.originLine = n := by simpa using heq
      omega
    rw [walk, walk, List.filter_append, hnone, List.append_nil]
    generalize hhere : (bindings.filter (·.originLine == n)).foldl Scope.add
      (scope.readLine raw n) = here
    have hbound : ∀ b ∈ here.bindings, b ∈ bindings := by
      intro b hb
      rw [← hhere, Scope.foldl_add_eq, Scope.bindings_readLine, List.mem_append, List.mem_reverse,
        List.mem_filter] at hb
      rcases hb with ⟨hb, -⟩ | hb
      · exact hb
      · exact hscope b hb
    rw [filterMap_subjects_append h hbound (by omega), ih hbound (by omega)]

theorem walk_append (file : String) (bindings : List Binding)
    (subjects : List Subject) (scope : Scope) (n : Int) (p q : List Line) :
    ∃ behind, walk file bindings subjects scope n (p ++ q) =
      walk file bindings subjects scope n p ++
        walk file bindings subjects behind (n + p.length) q := by
  induction p generalizing scope n with
  | nil => exact ⟨scope, by simp [walk]⟩
  | cons raw rest ih =>
    obtain ⟨behind, hbehind⟩ := ih
      ((bindings.filter (·.originLine == n)).foldl Scope.add (scope.readLine raw n)) (n + 1)
    exact ⟨behind, by
      rw [add_length_cons, List.cons_append, walk, walk, List.append_assoc, hbehind]⟩

theorem Precedes.not_symm {a b : Finding} (hab : Precedes a b) : ¬ Precedes b a := by
  rintro (hlt | ⟨heq, hlt⟩)
  · rcases hab with h | ⟨h, -⟩ <;> omega
  · rcases hab with h | ⟨-, h⟩
    · omega
    · exact absurd hlt (String.lt_asymm h)

/-- There is one way to put findings in order. -/
theorem eq_of_perm {fs gs : List Finding} (h : fs.Perm gs) (hfs : fs.Pairwise Precedes)
    (hgs : gs.Pairwise Precedes) : fs = gs :=
  h.eq_of_pairwise (fun _ _ _ _ hab hba => absurd hba hab.not_symm) hfs hgs

/-- The dereferences on the lines of a complete part are those of the part by itself. -/
theorem filter_generate_append (h : Complete part own whole)
    (hlater : ∀ b ∈ later, part.length < b.originLine) (file : String) (more : List Line) :
    (generate file (part ++ more) (bindings ++ later) whole).filter
      (fun f => f.line ≤ (part.length : Int)) =
      generate file part bindings own := by
  obtain ⟨behind, hwalk⟩ := walk_append file (bindings ++ later)
    (subjectsOf (part ++ more) (bindings ++ later) whole) {} 1 part more
  have hsame :
      walk file (bindings ++ later) (subjectsOf (part ++ more) (bindings ++ later) whole) {} 1
      part = walk file bindings (subjectsOf part bindings own) {} 1 part :=
    walk_of_append h hlater (List.forall_mem_nil _) (by omega) more
  rw [hsame] at hwalk
  have hearly : ∀ f ∈ walk file bindings (subjectsOf part bindings own) {} 1 part,
      decide (f.line ≤ part.length) = true := by
    intro f hf
    have hline := line_of_mem_walk hf
    rw [decide_eq_true_eq]
    omega
  have hlate : ∀ f ∈ walk file (bindings ++ later)
      (subjectsOf (part ++ more) (bindings ++ later) whole) behind (1 + part.length) more,
      ¬ decide (f.line ≤ part.length) = true := by
    intro f hf
    have hline := line_of_mem_walk hf
    rw [decide_eq_true_eq]
    omega
  -- Both sides are sorted, so it is enough that they are permutations of one walk.
  have hperm : ((generate file (part ++ more) (bindings ++ later) whole).filter
      (fun f => f.line ≤ (part.length : Int))).Perm (generate file part bindings own) := by
    refine ((List.mergeSort_perm _ before).filter _).trans ?_
    refine .trans (.of_eq ?_) (List.mergeSort_perm _ before).symm
    change (walk file (bindings ++ later)
      (subjectsOf (part ++ more) (bindings ++ later) whole) {} 1 (part ++ more)).filter _ = _
    rw [hwalk, List.filter_append, List.filter_eq_self.mpr hearly, List.filter_eq_nil_iff.mpr hlate,
      List.append_nil]
    rfl
  exact eq_of_perm hperm ((pairwise_generate _ _ _ _).filter _) (pairwise_generate _ _ _ _)

theorem insideTryFrom_append (h : Complete part own whole) (more : List Line) (k : Nat) {m : Nat}
    (hm : m ≤ part.length) :
    insideTryFrom (part ++ more) whole line k m = insideTryFrom part own line k m := by
  induction k generalizing m with
  | zero => simp [insideTryFrom]
  | succ k ih =>
    cases m with
    | zero => simp [insideTryFrom]
    | succ m =>
      rw [insideTryFrom, insideTryFrom, List.getElem?_append_left (by omega), h.agree _ (by omega),
        ih (by omega)]

theorem isDropped_append (h : Complete part own whole) (more : List Line) {f : Finding}
    (hf : f.line ≤ part.length) : isDropped (part ++ more) whole f = isDropped part own f := by
  unfold isDropped isSafeIdiom insideTry
  rw [insideTryFrom_append h more _ (by omega)]

end Finding

/-! ## The analysis -/

namespace Analysis

variable {file : String} {part : List Line} {k : Classifier} {fs : List Finding}

theorem run_of_run_append (hpart : (Scope.readLines {} 1 part).depth = 0) (more : List Line)
    (h : run file (part ++ more) k = .ok fs) :
    run file part k = .ok (fs.filter (fun f => f.line ≤ (part.length : Int))) := by
  cases hd : Declarations.ofLines k (part ++ more) with
  | error fault =>
    rw [run_eq_error_iff.mpr hd] at h
    cases h
  | ok d =>
    obtain ⟨d₁, later, hd₁, hdeclared, hlater⟩ := Declarations.ofLines_append hd
    have hcomplete : Complete part d₁.scope.extents d.scope.extents := by
      rw [Declarations.extents_of_ofLines hd₁, Declarations.extents_of_ofLines hd]
      exact complete_of_depth hpart more
    rw [run_of_ofLines hd, hdeclared, Except.ok.injEq] at h
    rw [run_of_ofLines hd₁, ← h, ← Finding.filter_generate_append hcomplete hlater file more,
      List.filter_filter, List.filter_filter]
    congr 1
    refine List.filter_congr fun f _ => ?_
    by_cases hf : f.line ≤ part.length
    · rw [Finding.isDropped_append hcomplete more hf, Bool.and_comm]
    · simp [hf]

/-- The findings of a complete part of a file are those on its lines in the whole file.  The rest of
the file takes them away only by a line that ends the analysis: one that reads an element by a
number that is too long. -/
theorem findings_of_complete_part (hrules : k.rules.Compiles)
    (hpart : (Scope.readLines {} 1 part).depth = 0) (file : String) (more : List Line) :
    (∀ fault, run file (part ++ more) k = .error fault ↔ run file part k = .error fault ∨
      fault = .longNumeral ∧
        ∃ raw ∈ more, Source.isCommentLine raw = false ∧ k.Overlong (Source.code raw)) ∧
    ∀ fs, run file (part ++ more) k = .ok fs →
      run file part k = .ok (fs.filter (fun f => f.line ≤ (part.length : Int))) := by
  refine ⟨fun fault => ?_, fun fs => run_of_run_append hpart more⟩
  simp only [run_eq_error_iff, Declarations.ofLines_eq_error_iff hrules,
    List.mem_append, or_and_right, exists_or, and_or_left]

/-- A function and a dereference of its parameter. -/
def samplePart : List Line := ["function f(u) \x7b".toList, "u.a;".toList, "\x7d".toList]

/-- A condition on the parameter's name, and another function. -/
def sampleMore : List Line :=
  ["\x7d if (!u) return; \x7b".toList, "(function (v) \x7b v.b; \x7d)".toList]

theorem depth_samplePart : (Scope.readLines {} 1 samplePart).depth = 0 := by decide

theorem run_samplePart :
    (∃ f, run "a.js" samplePart { rules := lookupRules } = .ok [f] ∧ f.line = 2) ∧
      ∃ d, Declarations.ofLines { rules := lookupRules } (samplePart ++ sampleMore) = .ok d := by
  have hruns : (run "a.js" samplePart { rules := lookupRules }).toOption.map (·.map (·.line)) =
      some [2] ∧ (Declarations.ofLines { rules := lookupRules }
        (samplePart ++ sampleMore)).isOk = true := by
    decide +kernel
  obtain ⟨hrun, hdeclared⟩ := hruns
  constructor
  · cases h : run "a.js" samplePart { rules := lookupRules } with
    | error fault =>
      rw [h] at hrun
      cases hrun
    | ok fs =>
      rw [h] at hrun
      obtain ⟨f, rfl, hf⟩ := List.map_eq_singleton_iff.mp (Option.some_inj.mp hrun)
      exact ⟨f, rfl, hf⟩
  · cases h : Declarations.ofLines { rules := lookupRules } (samplePart ++ sampleMore) with
    | error fault =>
      rw [h] at hdeclared
      cases hdeclared
    | ok d => exact ⟨d, rfl⟩

theorem findings_of_complete_part_sample :
    ∃ fs f, run "a.js" (samplePart ++ sampleMore) { rules := lookupRules } = .ok fs ∧
      run "a.js" samplePart { rules := lookupRules } = .ok [f] ∧ f.line = 2 ∧
      fs.filter (fun f => f.line ≤ (samplePart.length : Int)) = [f] := by
  obtain ⟨-, hfound⟩ := findings_of_complete_part (k := { rules := lookupRules })
    compiles_lookupRules depth_samplePart "a.js" sampleMore
  obtain ⟨⟨f, hpart, hline⟩, d, hd⟩ := run_samplePart
  have hwhole : run "a.js" (samplePart ++ sampleMore) { rules := lookupRules } = .ok _ :=
    run_of_ofLines hd
  have hsame := hpart.symm.trans (hfound _ hwhole)
  exact ⟨_, f, hwhole, hpart, hline, (Except.ok.inj hsame).symm⟩

/-- A complete function has a finding, but behind it stands a line that ends the analysis. -/
theorem findings_lost_to_long_number :
    lookupRules.Compiles ∧ (Scope.readLines {} 1 samplePart).depth = 0 ∧
      (∃ f, run "a.js" samplePart { rules := lookupRules } = .ok [f] ∧ f.line = 2) ∧
      run "a.js" (samplePart ++ [longRead]) { rules := lookupRules } = .error .longNumeral := by
  refine ⟨compiles_lookupRules, depth_samplePart, run_samplePart.1, ?_⟩
  rw [run_eq_error_iff]
  exact (Declarations.ofLines_eq_error_iff compiles_lookupRules).mpr
    ⟨rfl, longRead, List.mem_append_right _ List.mem_cons_self, overlong_longRead⟩

end Analysis

end NullAccess
