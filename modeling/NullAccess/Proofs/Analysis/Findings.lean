import NullAccess.Proofs.Analysis.LongRead
import NullAccess.Proofs.Report.Partition

/-!
# Findings are dereferences

What a finding says of its line is so: at its column the name is dereferenced, and a binding of that
name was declared before.  The column is found in the part of the line behind a declaration; that no
longer name ends there is known of the declaration (`refersAt_of_drop`).  Each name is reported once
on a line, and a report goes by line and name.
-/

namespace NullAccess

open Pattern

/-! ## Accesses -/

namespace Access

variable {a : Pattern} {name t : List Char} {m : Match} {kind : AccessKind} {c : Nat}

/-- Whether a name stands at a column of a text and is dereferenced there, and no longer name or
path ends in it. -/
structure RefersAt (name t : List Char) (c : Nat) : Prop where
  here : ∃ sep r, t.drop c = name ++ sep :: r ∧ (sep = '.' ∨ sep = '[')
  alone : ∀ d, (t.take c).getLast? = some d → Guard.isPathChar d = false

theorem refersAt_of_reference {v : Place} {sep : Char} {r : List Char} (h : IsMatch a t m)
    (hv : v ∈ (Guard.reference name).ends m.first) (hafter : v.after = sep :: r)
    (hsep : sep = '.' ∨ sep = '[') : RefersAt name t m.startCol := by
  obtain ⟨x, hx, hv⟩ := mem_ends_seq.mp hv
  obtain ⟨rest, hrest, rfl⟩ := mem_ends_text.mp hv
  have hbehind : x = m.first ∧ (m.first.before.head?.any Guard.isPathChar) = false := by
    unfold ends at hx
    split at hx
    · rename_i hnone
      exact ⟨List.mem_singleton.mp hx, by simpa using hnone⟩
    · cases hx
  obtain ⟨rfl, hnone⟩ := hbehind
  rw [← h.whole]
  refine ⟨⟨sep, r, ?_, hsep⟩, fun d hd => ?_⟩
  · rw [Match.startCol, drop_column, hrest]
    exact congrArg (name ++ ·) hafter
  · rw [Match.startCol, take_column, List.getLast?_reverse] at hd
    simpa [hd] using hnone

theorem refersAt_member (h : IsMatch (member name) t m) : RefersAt name t m.startCol := by
  obtain ⟨v, hv, hdot⟩ := mem_ends_seq.mp h.mem
  obtain ⟨x, hx, -⟩ := mem_ends_seq.mp hdot
  obtain ⟨r, hafter, -⟩ := mem_ends_chr.mp hx
  exact refersAt_of_reference h hv hafter (.inl rfl)

theorem refersAt_index (h : IsMatch (index name) t m) : RefersAt name t m.startCol := by
  obtain ⟨v, hv, hbracket⟩ := mem_ends_seq.mp h.mem
  obtain ⟨r, hafter, -⟩ := mem_ends_chr.mp hbracket
  exact refersAt_of_reference h hv hafter (.inr rfl)

theorem refersAt_methodCall (h : IsMatch (methodCall name) t m) : RefersAt name t m.startCol := by
  obtain ⟨w, hw, -⟩ := mem_ends_seq.mp h.mem
  obtain ⟨y, hy, -⟩ := mem_ends_seq.mp hw
  obtain ⟨v, hv, hdots⟩ := mem_ends_seq.mp hy
  obtain ⟨x, hx, -⟩ := mem_ends_seq.mp hdots
  obtain ⟨z, hz, -⟩ := mem_ends_seq.mp hx
  obtain ⟨r, hafter, -⟩ := mem_ends_chr.mp hz
  exact refersAt_of_reference h hv hafter (.inl rfl)

theorem refersAt_of_first? (h : first? name t = some (kind, c)) : RefersAt name t c := by
  unfold first? at h
  have hmembers : ∀ col ∈ ((member name).findAll t).map Match.startCol, RefersAt name t col := by
    intro col hcol
    obtain ⟨m, hm, rfl⟩ := List.mem_map.mp hcol
    exact refersAt_member (isMatch_of_mem_findAll hm)
  split at h
  · rename_i m hm
    cases h
    exact refersAt_methodCall (isMatch_of_find? hm)
  · dsimp only at h
    split at h
    · rename_i col hcol
      cases h
      exact hmembers c (List.mem_of_find?_eq_some hcol)
    · split at h
      · rename_i m hm
        cases h
        exact refersAt_index (isMatch_of_find? hm)
      · obtain ⟨col, hcol, heq⟩ := Option.map_eq_some_iff.mp h
        cases heq
        exact hmembers c (List.mem_of_mem_head? hcol)

/-- What is found behind a declaration stands there in the whole line too. -/
theorem refersAt_of_drop {col : Nat} (hclear : Classifier.ClearAt t col)
    (h : RefersAt name (t.drop col) c) : RefersAt name t (col + c) := by
  obtain ⟨sep, r, hdrop, hsep⟩ := h.here
  refine ⟨⟨sep, r, ?_, hsep⟩, fun d hd => ?_⟩
  · rw [← hdrop, List.drop_drop]
  · cases c with
    | zero =>
      -- The character before is the last one of the declaration, for the line goes on here.
      rcases hclear.2 with hend | ⟨last, hlast, hpath⟩
      · rw [hend, List.drop_nil] at hdrop
        cases name <;> cases hdrop
      · rw [Nat.add_zero, hlast, Option.some_inj] at hd
        rw [← hd]
        exact hpath
    | succ c =>
      refine h.alone d ?_
      rw [List.take_add, List.getLast?_append] at hd
      cases hlast : ((t.drop col).take (c + 1)).getLast? with
      | some e =>
        rw [hlast] at hd
        exact hd
      | none =>
        rw [List.getLast?_eq_none_iff, List.take_eq_nil_iff] at hlast
        rcases hlast with hzero | hnil
        · cases hzero
        · rw [hnil, List.drop_nil] at hdrop
          cases name <;> cases hdrop

end Access

/-! ## Names on a line -/

namespace Scope

variable {s : Scope} {l : Line} {n : Int} {name : String} {b : Binding} {bs : List Binding}

theorem bindings_readLine (s : Scope) (l : Line) (n : Int) :
    (s.readLine l n).bindings = s.bindings := by
  unfold readLine
  generalize snippet l = text
  induction l generalizing s with
  | nil => rfl
  | cons c rest ih =>
    rw [List.foldl_cons, ih]
    unfold step
    split
    · rfl
    · split
      · split <;> rfl
      · rfl

theorem foldl_add_eq (s : Scope) (bs : List Binding) :
    bs.foldl add s = { s with bindings := bs.reverse ++ s.bindings } := by
  induction bs generalizing s with
  | nil => rfl
  | cons b rest ih =>
    rw [List.foldl_cons, ih, List.reverse_cons, List.append_assoc]
    rfl

theorem mem_of_lookup {depth : Nat} (h : s.lookup name depth = some b) :
    b ∈ s.bindings ∧ b.name = name := by
  have hat : ∀ d : Int, s.at? name d = some b → b ∈ s.bindings ∧ b.name = name := by
    intro d hd
    have hfound := List.find?_some hd
    rw [Bool.and_eq_true, beq_iff_eq] at hfound
    exact ⟨List.mem_of_find?_eq_some hd, hfound.1⟩
  induction depth with
  | zero => exact hat 0 h
  | succ d ih =>
    rcases Option.or_eq_some_iff.mp h with hhere | ⟨-, hout⟩
    · exact hat _ hhere
    · exact ih hout

end Scope

namespace Finding

variable {file : String} {bindings : List Binding} {subjects : List Subject} {scope : Scope}
  {n : Int} {raw : Line} {lines : List Line} {f : Finding} {s : Subject} {b : Binding}

/-- What a finding says of its line. -/
structure Tells (s : Subject) (n : Int) (raw : Line) (b : Binding) (f : Finding) : Prop where
  line_eq : f.line = n
  name_eq : f.bindingName = s.name
  severity_eq : f.severity = f.accessKind.severity
  source_eq : f.sourceLine = String.ofList (Text.trim raw)
  origin_eq : f.bindingLine = b.originLine
  access : ∃ c : Nat, f.col = c + (if b.originLine = n then b.originCol else 0) ∧
    Access.RefersAt s.name.toList
      (Text.dropTo (Source.code raw) (if b.originLine = n then b.originCol else 0)) c

theorem tells_of_findingFor (h : s.findingFor file n raw b = some f) : Tells s n raw b f := by
  simp only [Subject.findingFor] at h
  generalize hoffset : (if b.originLine = n then b.originCol else 0) = offset at h
  split at h
  · cases h
  · split at h
    · cases h
    · rename_i kind c hfirst
      split at h
      · cases h
      · cases h
        refine ⟨rfl, rfl, rfl, rfl, rfl, c, ?_, ?_⟩
        · rw [hoffset]
        · rw [hoffset]
          exact Access.refersAt_of_first? hfirst

theorem tells_of_finding? (h : s.finding? file n raw scope = some f) :
    Source.isCommentLine raw = false ∧ ∃ b ∈ scope.bindings, b.name = s.name ∧
      Tells s n raw b f := by
  unfold Subject.finding? at h
  split at h
  · cases h
  · rename_i hcode
    simp only [Bool.or_eq_true, not_or, Bool.not_eq_true] at hcode
    obtain ⟨b, hlookup, hb⟩ := Option.bind_eq_some_iff.mp h
    obtain ⟨hmem, hname⟩ := Scope.mem_of_lookup hlookup
    exact ⟨hcode.1, b, hmem, hname, tells_of_findingFor hb⟩

/-! ## The walk -/

theorem line_of_finding? (h : s.finding? file n raw scope = some f) :
    f.line = n ∧ f.bindingName = s.name := by
  obtain ⟨-, b, -, -, htells⟩ := tells_of_finding? h
  exact ⟨htells.line_eq, htells.name_eq⟩

/-- The walk from a line on, where the bindings that took effect are declared before it. -/
theorem mem_walk (hscope : ∀ b ∈ scope.bindings, b ∈ bindings ∧ b.originLine < n)
    (h : f ∈ walk file bindings subjects scope n lines) :
    ∃ (i : Nat) (raw : Line), lines[i]? = some raw ∧ Source.isCommentLine raw = false ∧
      ∃ s ∈ subjects, ∃ b ∈ bindings, b.originLine ≤ n + i ∧ b.name = s.name ∧
        Tells s (n + i) raw b f := by
  induction lines generalizing scope n with
  | nil => cases h
  | cons raw rest ih =>
    rw [walk, List.mem_append] at h
    generalize hhere : (bindings.filter (·.originLine == n)).foldl Scope.add
      (scope.readLine raw n) = here at h
    -- Behind the line, the bindings held are those from before and those of the line itself.
    have hbindings : ∀ b ∈ here.bindings, b ∈ bindings ∧ b.originLine ≤ n := by
      intro b hb
      rw [← hhere, Scope.foldl_add_eq, Scope.bindings_readLine, List.mem_append,
        List.mem_reverse, List.mem_filter] at hb
      rcases hb with ⟨hb, hline⟩ | hb
      · exact ⟨hb, Int.le_of_eq (by simpa using hline)⟩
      · obtain ⟨hmem, hlt⟩ := hscope b hb
        exact ⟨hmem, by omega⟩
    rcases h with hfirst | hrest
    · obtain ⟨s, hs, hfinding⟩ := List.mem_filterMap.mp hfirst
      obtain ⟨hcomment, b, hb, hname, htells⟩ := tells_of_finding? hfinding
      obtain ⟨hmem, hle⟩ := hbindings b hb
      have hn : n + (0 : Nat) = n := by omega
      exact ⟨0, raw, rfl, hcomment, s, hs, b, hmem, by omega, hname, by rwa [hn]⟩
    · have hlater : ∀ b ∈ here.bindings, b ∈ bindings ∧ b.originLine < n + 1 := by
        intro b hb
        obtain ⟨hmem, hle⟩ := hbindings b hb
        exact ⟨hmem, by omega⟩
      obtain ⟨i, raw', hraw, hcomment, s, hs, b, hb, hle, hname, htells⟩ := ih hlater hrest
      have hn : n + 1 + (i : Int) = n + (i + 1 : Nat) := by omega
      rw [hn] at hle htells
      exact ⟨i + 1, raw', hraw, hcomment, s, hs, b, hb, hle, hname, htells⟩

theorem line_of_mem_walk (h : f ∈ walk file bindings subjects scope n lines) :
    n ≤ f.line ∧ f.line < n + lines.length := by
  induction lines generalizing scope n with
  | nil => cases h
  | cons raw rest ih =>
    rw [walk, List.mem_append] at h
    rcases h with hfirst | hrest
    · obtain ⟨s, -, hfinding⟩ := List.mem_filterMap.mp hfirst
      rw [(line_of_finding? hfinding).1, List.length_cons]
      omega
    · have hline := ih hrest
      rw [List.length_cons]
      omega

/-! ## The order of a report -/

/-- The order of a report is by line, and on a line by name. -/
def Precedes (f g : Finding) : Prop :=
  f.line < g.line ∨ f.line = g.line ∧ f.bindingName < g.bindingName

theorem before_trans (a b c : Finding) (hab : before a b = true) (hbc : before b c = true) :
    before a c = true := by
  simp only [before, Bool.or_eq_true, Bool.and_eq_true, decide_eq_true_eq, beq_iff_eq,
    Bool.not_eq_true', decide_eq_false_iff_not, String.not_lt] at hab hbc ⊢
  rcases hab with hab | ⟨hab, hnab⟩
  · exact .inl (by omega)
  · rcases hbc with hbc | ⟨hbc, hnbc⟩
    · exact .inl (by omega)
    · exact .inr ⟨hab.trans hbc, String.le_trans hnab hnbc⟩

theorem before_total (a b : Finding) : (before a b || before b a) = true := by
  simp only [before, Bool.or_eq_true, Bool.and_eq_true, decide_eq_true_eq, beq_iff_eq,
    Bool.not_eq_true', decide_eq_false_iff_not, String.not_lt]
  rcases Int.lt_trichotomy a.line b.line with hlt | heq | hgt
  · exact .inl (.inl hlt)
  · rcases String.le_total a.bindingName b.bindingName with hle | hle
    · exact .inl (.inr ⟨heq, hle⟩)
    · exact .inr (.inr ⟨heq.symm, hle⟩)
  · exact .inr (.inl hgt)

theorem precedes_of_before {a b : Finding} (h : before a b = true)
    (hne : a.line = b.line → a.bindingName ≠ b.bindingName) : Precedes a b := by
  simp only [before, Bool.or_eq_true, Bool.and_eq_true, decide_eq_true_eq, beq_iff_eq,
    Bool.not_eq_true', decide_eq_false_iff_not, String.not_lt] at h
  rcases h with hlt | ⟨heq, hle⟩
  · exact .inl hlt
  · refine .inr ⟨heq, ?_⟩
    by_contra hnot
    exact hne heq (String.le_antisymm hle (String.not_lt.mp hnot))

/-- On one line each name is reported once. -/
theorem pairwise_walk (hnames : (subjects.map (·.name)).Nodup) :
    (walk file bindings subjects scope n lines).Pairwise
      fun a b => a.line = b.line → a.bindingName ≠ b.bindingName := by
  induction lines generalizing scope n with
  | nil => exact .nil
  | cons raw rest ih =>
    rw [walk, List.pairwise_append]
    refine ⟨?_, ih, fun a ha b hb => ?_⟩
    · rw [List.nodup_iff_pairwise_ne, List.pairwise_map] at hnames
      refine hnames.filterMap _ fun s s' hne a ha b hb _ => ?_
      rw [(line_of_finding? ha).2, (line_of_finding? hb).2]
      exact hne
    · obtain ⟨s, -, hfinding⟩ := List.mem_filterMap.mp ha
      have hline := (line_of_finding? hfinding).1
      have hlater := (line_of_mem_walk hb).1
      intro heq
      omega

theorem pairwise_generate (file : String) (lines : List Line) (bindings : List Binding)
    (extents : Extents) : (generate file lines bindings extents).Pairwise Precedes := by
  unfold generate
  dsimp only
  generalize hsubjects : (bindings.map (·.name)).eraseDups.map
    (fun name => (⟨name, Guard.findZones lines name extents⟩ : Subject)) = subjects
  have hnames : (subjects.map (·.name)).Nodup := by
    rw [← hsubjects, List.map_map]
    simpa [Function.comp_def] using (eraseDups_spec (bindings.map (·.name))).1
  have hdistinct : ((walk file bindings subjects {} 1 lines).mergeSort before).Pairwise
      fun a b => a.line = b.line → a.bindingName ≠ b.bindingName :=
    ((List.mergeSort_perm _ _).pairwise_iff fun hab heq => (hab heq.symm).symm).mpr
      (pairwise_walk hnames)
  exact (List.pairwise_mergeSort before_trans before_total _).imp₂
    (fun _ _ hbefore hne => precedes_of_before hbefore hne) hdistinct

/-! ## Known-safe idioms -/

/-- No line before one of the file is looked for in vain. -/
theorem insideTryFrom_ok {extents : Extents} {line : Int} (k : Nat) {m : Nat}
    (hm : m ≤ lines.length) :
    ∃ inside, insideTryFrom lines extents line k m = .ok inside := by
  induction k generalizing m with
  | zero => exact ⟨false, by simp [insideTryFrom]⟩
  | succ k ih =>
    cases m with
    | zero => exact ⟨false, by simp [insideTryFrom]⟩
    | succ m =>
      have hlt : m < lines.length := by omega
      rw [insideTryFrom, List.getElem?_eq_getElem hlt]
      dsimp only
      split
      · exact ⟨true, rfl⟩
      · exact ih (by omega)

/-- Whether a finding is dropped. -/
def isDropped (lines : List Line) (extents : Extents) (f : Finding) : Bool :=
  match isSafeIdiom lines extents f with
  | .ok safe => safe
  | .error _ => false

theorem dropSafeIdioms_eq {extents : Extents} {fs : List Finding}
    (h : ∀ f ∈ fs, f.line ≤ lines.length) :
    dropSafeIdioms lines extents fs = .ok (fs.filter (!isDropped lines extents ·)) := by
  induction fs with
  | nil => rfl
  | cons f rest ih =>
    obtain ⟨hfirst, hrest⟩ := List.forall_mem_cons.mp h
    obtain ⟨safe, hsafe⟩ : ∃ safe, isSafeIdiom lines extents f = .ok safe := by
      unfold isSafeIdiom
      split
      · exact ⟨true, rfl⟩
      · exact insideTryFrom_ok _ (by omega)
    have hdropped : isDropped lines extents f = safe := by rw [isDropped, hsafe]
    rw [dropSafeIdioms, hsafe, ih hrest, List.filter_cons, hdropped]
    cases safe <;> rfl

theorem line_of_mem_generate {extents : Extents} (h : f ∈ generate file lines bindings extents) :
    1 ≤ f.line ∧ f.line ≤ lines.length := by
  rw [generate, List.mem_mergeSort] at h
  have hline := line_of_mem_walk h
  omega

end Finding

/-! ## The analysis -/

namespace Analysis

variable {file : String} {lines : List Line} {k : Classifier} {f : Finding} {fs : List Finding}
  {d : Declarations}

/-- The findings of a file whose declarations are known. -/
theorem run_of_ofLines (h : Declarations.ofLines k lines = .ok d) :
    run file lines k = .ok ((Finding.generate file lines d.declared d.scope.extents).filter
      (!Finding.isDropped lines d.scope.extents ·)) := by
  unfold run
  rw [h]
  exact Finding.dropSafeIdioms_eq fun f hf => (Finding.line_of_mem_generate hf).2

theorem run_eq_error_iff {fault : Fault} :
    run file lines k = .error fault ↔ Declarations.ofLines k lines = .error fault := by
  cases h : Declarations.ofLines k lines with
  | error e =>
    unfold run
    rw [h]
    simp [bind, Except.bind]
  | ok d => simp [run_of_ofLines h]

/-- A result of which something is known was reached. -/
theorem exists_of_toOption_map {α β : Type} {x : Except Fault α} {g : α → β} {y : β}
    (h : x.toOption.map g = some y) : ∃ a, x = .ok a ∧ g a = y := by
  cases x with
  | error fault => cases h
  | ok a => exact ⟨a, rfl, Option.some_inj.mp h⟩

/-- What a finding promises: its line is a line of code, at its column its name is dereferenced, and
a binding of the name is declared before. -/
structure IsDereference (lines : List Line) (declared : List Binding) (f : Finding) : Prop where
  within : 1 ≤ f.line ∧ f.line ≤ lines.length
  code : ∃ raw, lines[(f.line - 1).toNat]? = some raw ∧ Source.isCommentLine raw = false ∧
    f.sourceLine = String.ofList (Text.trim raw) ∧
    ∃ col : Nat, f.col = col ∧ Access.RefersAt f.bindingName.toList (Source.code raw) col
  severity : f.severity = f.accessKind.severity
  binding : ∃ b ∈ declared, b.name = f.bindingName ∧ b.originLine = f.bindingLine ∧
    b.originLine ≤ f.line ∧ (b.originLine = f.line → b.originCol ≤ f.col)

theorem isDereference_of_mem_generate (hlines : ∀ l ∈ lines, '\n' ∉ l)
    (hd : Declarations.ofLines k lines = .ok d)
    (hf : f ∈ Finding.generate file lines d.declared d.scope.extents) :
    IsDereference lines d.declared f := by
  have hwithin := Finding.line_of_mem_generate hf
  rw [Finding.generate, List.mem_mergeSort] at hf
  have hnone : ∀ b ∈ ({} : Scope).bindings, b ∈ d.declared ∧ b.originLine < 1 :=
    List.forall_mem_nil _
  obtain ⟨i, raw, hraw, hcomment, s, -, b, hb, hle, hname, htells⟩ := Finding.mem_walk hnone hf
  have hline : f.line = 1 + i := htells.line_eq
  have hindex : (f.line - 1).toNat = i := by omega
  obtain ⟨c, hcol, hrefers⟩ := htells.access
  rw [← htells.name_eq] at hname hrefers
  obtain ⟨i', raw', hraw', -, hat, col, horigin, hclear⟩ := Declarations.declaredAt_of_ofLines hd hb
  have hcode : ∃ col : Nat, f.col = col ∧
      Access.RefersAt f.bindingName.toList (Source.code raw) col := by
    by_cases hsame : b.originLine = 1 + (i : Int)
    · -- The binding is one of this line, and is read only behind its declaration.
      obtain rfl : i' = i := by omega
      obtain rfl : raw' = raw := Option.some_inj.mp (hraw'.symm.trans hraw)
      have hfeed : '\n' ∉ Source.code raw' := fun hmem =>
        hlines raw' (List.mem_of_getElem? hraw) ((Source.code_isPrefix raw').subset hmem)
      rw [if_pos hsame, horigin, Text.dropTo_ofNat] at hrefers
      rw [if_pos hsame, horigin] at hcol
      exact ⟨col + c, by omega, Access.refersAt_of_drop (hclear hfeed) hrefers⟩
    · rw [if_neg hsame] at hcol hrefers
      have hwhole : Text.dropTo (Source.code raw) 0 = Source.code raw :=
        Text.dropTo_ofNat (Source.code raw) 0
      rw [hwhole] at hrefers
      exact ⟨c, by omega, hrefers⟩
  refine ⟨hwithin, ⟨raw, by rw [hindex]; exact hraw, hcomment, htells.source_eq, hcode⟩,
    htells.severity_eq, b, hb, hname, htells.origin_eq.symm, by omega, fun heq => ?_⟩
  rw [if_pos (by omega)] at hcol
  omega

/-- An analysis comes to no result exactly where a line of code reads an element by a number that is
too long.  Otherwise its findings go strictly by line and name, and each is a dereference of a
declared name. -/
theorem findings_are_dereferences (hlines : ∀ l ∈ lines, '\n' ∉ l) (hrules : k.rules.Compiles)
    (file : String) :
    (∀ fault, run file lines k = .error fault ↔ fault = .longNumeral ∧
      ∃ raw ∈ lines, Source.isCommentLine raw = false ∧ k.Overlong (Source.code raw)) ∧
    ∀ fs, run file lines k = .ok fs →
      fs.Pairwise Finding.Precedes ∧
      ∃ d, Declarations.ofLines k lines = .ok d ∧ ∀ f ∈ fs, IsDereference lines d.declared f := by
  refine ⟨fun fault => ?_, fun fs h => ?_⟩
  · rw [run_eq_error_iff]
    exact Declarations.ofLines_eq_error_iff hrules
  · cases hd : Declarations.ofLines k lines with
    | error fault =>
      rw [run_eq_error_iff.mpr hd] at h
      cases h
    | ok d =>
      rw [run_of_ofLines hd, Except.ok.injEq] at h
      subst h
      refine ⟨(Finding.pairwise_generate _ _ _ _).filter _, d, rfl, fun f hf => ?_⟩
      exact isDereference_of_mem_generate hlines hd (List.mem_filter.mp hf).1

/-- A declaration and a dereference on one line, and a name that ends in a shorter one. -/
def sampleLines : List Line := ["function f(u) \x7b u.a; \x7d".toList, "bu.c;".toList]

theorem findings_are_dereferences_sample :
    ∃ f d, run "a.js" sampleLines { rules := {} } = .ok [f] ∧
      Declarations.ofLines { rules := {} } sampleLines = .ok d ∧
      f.line = 1 ∧ f.col = 16 ∧ IsDereference sampleLines d.declared f := by
  have hlines : ∀ l ∈ sampleLines, '\n' ∉ l := by decide
  have hrules : RuleSet.Compiles {} := List.forall_mem_nil _
  have hrun : (run "a.js" sampleLines { rules := {} }).toOption.map
      (·.map fun f => (f.line, f.col)) = some [(1, 16)] := by
    decide +kernel
  obtain ⟨-, hfound⟩ := findings_are_dereferences (k := { rules := {} }) hlines hrules "a.js"
  cases h : run "a.js" sampleLines { rules := {} } with
  | error fault =>
    rw [h] at hrun
    cases hrun
  | ok fs =>
    rw [h] at hrun
    obtain ⟨-, d, hd, hall⟩ := hfound fs h
    obtain ⟨f, rfl, hf⟩ : ∃ f, fs = [f] ∧ (f.line, f.col) = (1, 16) := by
      simpa [Except.toOption, List.map_eq_singleton_iff] using hrun
    obtain ⟨hline, hcol⟩ := Prod.mk.inj hf
    exact ⟨f, d, rfl, hd, hline, hcol, hall f List.mem_cons_self⟩

/-- A line without a line feed and rules that compile, and yet the analysis comes to no result. -/
theorem analysis_ended_by_long_number :
    (∀ l ∈ [longRead], '\n' ∉ l) ∧ lookupRules.Compiles ∧
      run "a.js" [longRead] { rules := lookupRules } = .error .longNumeral := by
  refine ⟨?_, compiles_lookupRules, ?_⟩
  · intro l hl
    rw [List.mem_singleton.mp hl]
    exact not_mem_readOf isDecimal_of_mem_ones (by decide) (by decide)
  · rw [run_eq_error_iff]
    exact (Declarations.ofLines_eq_error_iff compiles_lookupRules).mpr
      ⟨rfl, longRead, List.mem_cons_self, overlong_longRead⟩

end Analysis

end NullAccess
