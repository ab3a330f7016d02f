import NullAccess.Proofs.Indent.Accesses
import NullAccess.Proofs.Indent.Declarations

/-!
# Findings behind a margin

The findings of a file are those of the trimmed file, each further on by the margin of its line
(`run_trim`).  So files whose lines are equal when trimmed have the same findings but for the
columns, and these are the same from the margin on (`findings_keep_to_margins`).  Both come to no
result alike, which is where a line of code reads an element by a number that is too long.

A declaration of a line and the access behind it are moved together: where the text behind a
declaration is read, it is the same text with other blanks behind it (`exists_text_flush`).
-/

namespace NullAccess

open Text

/-! ## The lines of a file -/

/-- The line of a number, which counts from one. -/
def lineAt (lines : List Line) (n : Int) : Line := lines.getD (n - 1).toNat []

theorem lineAt_of_getElem? {lines : List Line} {i : Nat} {raw : Line} (h : lines[i]? = some raw) :
    lineAt lines (1 + i) = raw := by
  rw [lineAt, show ((1 : Int) + i - 1).toNat = i by omega, List.getD_eq_getElem?_getD, h]
  rfl

/-- The binding as one of the trimmed file. -/
def Binding.flush (lines : List Line) (b : Binding) : Binding :=
  b.outdent (margin (lineAt lines b.originLine)) (Source.code (trim (lineAt lines b.originLine)))

theorem Binding.originLine_flush (lines : List Line) (b : Binding) :
    (b.flush lines).originLine = b.originLine := rfl

/-- The finding as one of the trimmed file. -/
def Finding.flush (lines : List Line) (f : Finding) : Finding :=
  { f with col := f.col - (margin (lineAt lines f.line)).length }

/-! ## Scopes -/

namespace Scope

/-- The scope as one of the trimmed file. -/
def flush (lines : List Line) (s : Scope) : Scope :=
  { s with bindings := s.bindings.map (Binding.flush lines) }

theorem readLine_flush (lines : List Line) (s : Scope) (raw : Line) (n : Int) :
    (s.flush lines).readLine (trim raw) n = (s.readLine raw n).flush lines := by
  rw [keepsBlocks_trim.scope, flush, readLine_with, flush, bindings_readLine]

theorem foldl_add_flush (lines : List Line) (s : Scope) (bs : List Binding) :
    (bs.map (Binding.flush lines)).foldl add (s.flush lines) = (bs.foldl add s).flush lines := by
  rw [foldl_add_eq, foldl_add_eq, flush, flush, List.map_append, List.map_reverse]

theorem lookup_flush (lines : List Line) (s : Scope) (name : String) (depth : Nat) :
    (s.flush lines).lookup name depth = (s.lookup name depth).map (Binding.flush lines) := by
  have hat : ∀ d : Int, (s.flush lines).at? name d = (s.at? name d).map (Binding.flush lines) :=
    fun d => List.find?_map
  induction depth with
  | zero => exact hat 0
  | succ d ih => rw [lookup, lookup, hat, ih, Option.map_or]

end Scope

/-! ## Declarations -/

namespace Declarations

variable {k : Classifier} {lines ls : List Line} {d : Declarations} {n : Int} {raw : Line}

/-- The gathering as one of the trimmed file. -/
def flush (lines : List Line) (d : Declarations) : Declarations :=
  { scope := d.scope.flush lines, declared := d.declared.map (Binding.flush lines) }

theorem readLine_flush (hraw : lineAt lines n = raw) (hlf : '\n' ∉ raw) :
    (d.flush lines).readLine k (lines.map trim) (trim raw) n =
      (d.readLine k lines raw n).map (flush lines) := by
  unfold readLine
  rw [Source.isCommentLine_trim, show (d.flush lines).scope = d.scope.flush lines from rfl,
    Scope.readLine_flush]
  dsimp only
  split
  · rfl
  · obtain ⟨w, hw, hcode⟩ := Source.code_eq raw
    have hfeed : '\n' ∉ margin raw ++ Source.code (trim raw) ++ w := by
      rw [← hcode]
      exact fun hmem => hlf ((Source.code_isPrefix raw).subset hmem)
    have hclassify : (k.classify (Source.code raw) n (d.scope.readLine raw n).depth lines).map
          (List.map (Binding.outdent (margin raw) (Source.code (trim raw)))) =
        k.classify (Source.code (trim raw)) n (d.scope.readLine raw n).depth (lines.map trim) := by
      rw [hcode]
      exact Classifier.classify_pads (isPad_margin raw) hw hfeed
    rw [show ((d.scope.readLine raw n).flush lines).depth = (d.scope.readLine raw n).depth from rfl,
      ← hclassify]
    cases hfound : k.classify (Source.code raw) n (d.scope.readLine raw n).depth lines with
    | error e => rfl
    | ok found =>
      have hflush : found.map (Binding.outdent (margin raw) (Source.code (trim raw))) =
          found.map (Binding.flush lines) := by
        refine List.map_congr_left fun b hb => ?_
        rw [Binding.flush, (Classifier.clear_of_classify hfound hb).1, hraw]
      simp only [Except.map, hflush, Scope.foldl_add_flush, flush, List.map_append]

theorem readLines_flush
    (hlines : ∀ (i : Nat) raw, ls[i]? = some raw → lineAt lines (n + i) = raw ∧ '\n' ∉ raw) :
    readLines k (lines.map trim) (d.flush lines) n (ls.map trim) =
      (readLines k lines d n ls).map (flush lines) := by
  induction ls generalizing d n with
  | nil => rfl
  | cons raw rest ih =>
    obtain ⟨hraw, hlf⟩ := hlines 0 raw rfl
    have hrest :
        ∀ (i : Nat) raw, rest[i]? = some raw → lineAt lines (n + 1 + i) = raw ∧ '\n' ∉ raw := by
      intro i raw hraw
      rw [show n + 1 + (i : Int) = n + (i + 1 : Nat) by omega]
      exact hlines (i + 1) raw hraw
    rw [List.map_cons, readLines, readLines, readLine_flush (by simpa using hraw) hlf]
    cases d.readLine k lines raw n with
    | error e => rfl
    | ok d' => exact ih hrest

theorem ofLines_trim (hlines : ∀ l ∈ lines, '\n' ∉ l) :
    ofLines k (lines.map trim) = (ofLines k lines).map (flush lines) :=
  readLines_flush (d := {}) fun _ raw hraw =>
    ⟨lineAt_of_getElem? hraw, hlines raw (List.mem_of_getElem? hraw)⟩

theorem isInk_of_readLines {all : List Line} {d' : Declarations}
    (hd : ∀ b ∈ d.declared, IsInk b.name.toList) (h : readLines k all d n ls = .ok d') :
    ∀ b ∈ d'.declared, IsInk b.name.toList := by
  induction ls generalizing d n with
  | nil =>
    cases h
    exact hd
  | cons raw rest ih =>
    obtain ⟨d₁, hfirst, hrest⟩ := readLines_cons_eq_ok h
    obtain ⟨found, hfound, -, horigin⟩ := readLine_eq_ok hfirst
    refine ih (fun b hb => ?_) hrest
    rw [hfound, List.mem_append] at hb
    rcases hb with hb | hb
    · exact hd b hb
    · rcases horigin with rfl | ⟨-, hclassify⟩
      · cases hb
      · exact Classifier.isInk_of_classify hclassify hb

/-- The names of a file have no blanks, and no binding of it begins in the margin. -/
theorem declared_of_ofLines (hlines : ∀ l ∈ lines, '\n' ∉ l) (h : ofLines k lines = .ok d) :
    ∀ b ∈ d.declared, IsInk b.name.toList ∧ 0 ≤ (b.flush lines).originCol := by
  intro b hb
  have htrim : ofLines k (lines.map trim) = .ok (d.flush lines) := by
    rw [ofLines_trim hlines, h]
    rfl
  have hflush : b.flush lines ∈ (d.flush lines).declared := List.mem_map_of_mem hb
  obtain ⟨-, -, -, -, -, col, hcol, -⟩ := declaredAt_of_ofLines htrim hflush
  exact ⟨isInk_of_readLines (List.forall_mem_nil _) h b hb, by omega⟩

end Declarations

/-! ## Findings -/

namespace Finding

variable {file name : String} {lines ls : List Line} {bindings : List Binding} {extents : Extents}
  {scope : Scope} {n : Int} {raw : Line} {b : Binding}

/-- The text in which a binding is read is, but for blanks around it, that of the trimmed file. -/
theorem exists_text_flush (hraw : lineAt lines n = raw) (hb : 0 ≤ (b.flush lines).originCol) :
    ∃ (offset offset' : Nat) (u w : List Char), IsPad u ∧ IsPad w ∧
      (if b.originLine = n then b.originCol else 0) = offset ∧
      (if b.originLine = n then (b.flush lines).originCol else 0) = offset' ∧
      (Source.code raw).drop offset = u ++ (Source.code (trim raw)).drop offset' ++ w ∧
      (offset' < (Source.code (trim raw)).length →
        offset + u.length = offset' + (margin raw).length) := by
  obtain ⟨w, hw, hcode⟩ := Source.code_eq raw
  by_cases hline : b.originLine = n
  · have hcol : (b.flush lines).originCol =
        min (b.originCol - (margin raw).length) (Source.code (trim raw)).length := by
      rw [Binding.flush, hline, hraw]
      rfl
    rw [hcol] at hb ⊢
    obtain ⟨col, horigin⟩ : ∃ col : Nat, b.originCol = (margin raw).length + col :=
      ⟨(b.originCol - (margin raw).length).toNat, by omega⟩
    refine ⟨(margin raw).length + col, min col (Source.code (trim raw)).length, [],
      w.drop (col - (Source.code (trim raw)).length), isPad_nil,
      fun c hc => hw c (List.mem_of_mem_drop hc), ?_, ?_, ?_, ?_⟩
    · rw [if_pos hline, horigin]
      omega
    · rw [if_pos hline, horigin]
      omega
    · rw [hcode, List.append_assoc, List.drop_length_add_append, List.drop_append, List.nil_append]
      congr 1
      rcases Nat.le_total col (Source.code (trim raw)).length with hle | hle
      · rw [Nat.min_eq_left hle]
      · rw [Nat.min_eq_right hle, List.drop_eq_nil_of_le hle, List.drop_length]
    · rw [List.length_nil]
      omega
  · refine ⟨0, 0, margin raw, w, isPad_margin raw, hw, if_neg hline,
      if_neg hline, hcode, fun _ => ?_⟩
    omega

theorem findingFor_flush (hname : IsInk name.toList) {i : Nat} (hraw : lines[i]? = some raw)
    (hb : 0 ≤ (b.flush lines).originCol) :
    Subject.findingFor ⟨name, Guard.findZones (lines.map trim) name extents⟩ file (1 + i) (trim raw)
        (b.flush lines) =
      (Subject.findingFor ⟨name, Guard.findZones lines name extents⟩ file (1 + i) raw b).map
        (flush lines) := by
  obtain ⟨offset, offset', u, w, hu, hw, hoffset, hoffset', htext, hmoved⟩ :=
    exists_text_flush (lineAt_of_getElem? hraw) hb
  rw [findingFor_of_offset _ file (trim raw) hoffset',
    findingFor_of_offset _ file raw hoffset, htext, Access.isGuarded_pads hname hu hw,
    Access.first?_pads hname hu hw]
  dsimp only
  split
  · rfl
  · cases hfirst : Access.first? name.toList ((Source.code (trim raw)).drop offset') with
    | none => rfl
    | some found =>
      obtain ⟨kind, c⟩ := found
      have hlt := Access.lt_of_first? hfirst
      rw [List.length_drop] at hlt
      have hcol : c + u.length + offset = c + offset' + (margin raw).length := by
        have hstart := hmoved (by omega)
        omega
      have hsafe := Guard.isSafe_findZones_trim hname extents hraw
        (show c + offset' < (Source.code (trim raw)).length by omega) b.originLine
      have hreport :
          report ⟨name, Guard.findZones (lines.map trim) name extents⟩ file (1 + i) (trim raw)
            (b.flush lines) kind (c + offset' : Nat) =
          flush lines (report ⟨name, Guard.findZones lines name extents⟩ file (1 + i) raw b kind
            (c + offset' + (margin raw).length : Nat)) := by
        have hback : ((c + offset' + (margin raw).length : Nat) : Int) - (margin raw).length =
            (c + offset' : Nat) := by omega
        simp only [report, flush, lineAt_of_getElem? hraw, trim_trim, hback]
        rfl
      simp only [Option.map_some, Option.bind_some, hcol, hsafe, hreport, Binding.originLine_flush]
      split <;> rfl

theorem finding?_flush (hname : IsInk name.toList) {i : Nat} (hraw : lines[i]? = some raw)
    (hscope : ∀ b ∈ scope.bindings, 0 ≤ (b.flush lines).originCol) :
    Subject.finding? ⟨name, Guard.findZones (lines.map trim) name extents⟩ file (1 + i) (trim raw)
        (scope.flush lines) =
      (Subject.finding? ⟨name, Guard.findZones lines name extents⟩ file (1 + i) raw scope).map
        (flush lines) := by
  unfold Subject.finding?
  dsimp only
  rw [Source.isCommentLine_trim, Source.holds_code_trim hname]
  split
  · rfl
  · rw [Scope.lookup_flush, show (scope.flush lines).depth = scope.depth from rfl]
    cases hlookup : scope.lookup name scope.depth with
    | none => rfl
    | some b => exact findingFor_flush hname hraw (hscope b (Scope.mem_of_lookup hlookup).1)

theorem filterMap_subjects_flush (hbindings : ∀ b ∈ bindings, IsInk b.name.toList) {i : Nat}
    (hraw : lines[i]? = some raw) (hscope : ∀ b ∈ scope.bindings, 0 ≤ (b.flush lines).originCol) :
    (subjectsOf (lines.map trim) (bindings.map (Binding.flush lines)) extents).filterMap
        (·.finding? file (1 + i) (trim raw) (scope.flush lines)) =
      ((subjectsOf lines bindings extents).filterMap (·.finding? file (1 + i) raw scope)).map
        (flush lines) := by
  have hnames : (bindings.map (Binding.flush lines)).map (·.name) = bindings.map (·.name) := by
    rw [List.map_map]
    rfl
  rw [subjectsOf, subjectsOf, hnames, List.map_filterMap, List.filterMap_map, List.filterMap_map]
  refine List.filterMap_congr fun name hmem => ?_
  rw [(eraseDups_spec _).2, List.mem_map] at hmem
  obtain ⟨b, hb, rfl⟩ := hmem
  exact finding?_flush (hbindings b hb) hraw hscope

theorem walk_flush
    (hbindings : ∀ b ∈ bindings, IsInk b.name.toList ∧ 0 ≤ (b.flush lines).originCol)
    (hscope : ∀ b ∈ scope.bindings, 0 ≤ (b.flush lines).originCol) {m : Nat}
    (hls : ∀ (i : Nat) raw, ls[i]? = some raw → lines[m + i]? = some raw) :
    walk file (bindings.map (Binding.flush lines))
        (subjectsOf (lines.map trim) (bindings.map (Binding.flush lines)) extents)
        (scope.flush lines) (1 + m) (ls.map trim) =
      (walk file bindings (subjectsOf lines bindings extents) scope (1 + m) ls).map
        (flush lines) := by
  induction ls generalizing scope m with
  | nil => rfl
  | cons raw rest ih =>
    have hfilter : (bindings.map (Binding.flush lines)).filter (·.originLine == 1 + (m : Int)) =
        (bindings.filter (·.originLine == 1 + (m : Int))).map (Binding.flush lines) :=
          List.filter_map
    rw [List.map_cons, walk, walk, hfilter, Scope.readLine_flush, Scope.foldl_add_flush]
    generalize hhere : (bindings.filter (·.originLine == 1 + (m : Int))).foldl Scope.add
      (scope.readLine raw (1 + m)) = here
    have hbound : ∀ b ∈ here.bindings, 0 ≤ (b.flush lines).originCol := by
      intro b hb
      rw [← hhere, Scope.foldl_add_eq, Scope.bindings_readLine, List.mem_append, List.mem_reverse,
        List.mem_filter] at hb
      rcases hb with ⟨hb, -⟩ | hb
      · exact (hbindings b hb).2
      · exact hscope b hb
    have hfirst : lines[m]? = some raw := hls 0 raw rfl
    have hrest : ∀ (i : Nat) raw, rest[i]? = some raw → lines[m + 1 + i]? = some raw := by
      intro i raw hraw
      rw [Nat.add_right_comm]
      exact hls (i + 1) raw hraw
    have hnext : (1 + (m : Int)) + 1 = 1 + (m + 1 : Nat) := by omega
    rw [filterMap_subjects_flush (fun b hb => (hbindings b hb).1) hfirst hbound, hnext,
      ih hbound hrest, List.map_append]

theorem generate_flush (file : String) (extents : Extents)
    (hbindings : ∀ b ∈ bindings, IsInk b.name.toList ∧ 0 ≤ (b.flush lines).originCol) :
    generate file (lines.map trim) (bindings.map (Binding.flush lines)) extents =
      (generate file lines bindings extents).map (flush lines) := by
  have hwalk : walk file (bindings.map (Binding.flush lines))
        (subjectsOf (lines.map trim) (bindings.map (Binding.flush lines)) extents) {} 1
        (lines.map trim) =
      (walk file bindings (subjectsOf lines bindings extents) {} 1 lines).map (flush lines) := by
    have hnone : ∀ b ∈ ({} : Scope).bindings, 0 ≤ (b.flush lines).originCol := List.forall_mem_nil _
    refine walk_flush (m := 0) hbindings hnone fun i raw hraw => ?_
    rwa [Nat.zero_add]
  change (walk file _ (subjectsOf _ _ extents) {} 1 _).mergeSort before =
    ((walk file bindings (subjectsOf lines bindings extents) {} 1 lines).mergeSort before).map _
  rw [hwalk]
  exact (List.map_mergeSort (f := flush lines) fun _ _ _ _ => rfl).symm

end Finding

/-! ## The analysis -/

namespace Analysis

variable {k : Classifier} {lines lines' : List Line}

/-- The findings of the trimmed file. -/
theorem run_trim (hlines : ∀ l ∈ lines, '\n' ∉ l) (file : String) :
    run file (lines.map trim) k = (run file lines k).map (List.map (Finding.flush lines)) := by
  have htrim := Declarations.ofLines_trim (k := k) hlines
  cases hd : Declarations.ofLines k lines with
  | error fault =>
    rw [hd] at htrim
    rw [run_eq_error_iff.mpr hd, run_eq_error_iff.mpr htrim]
    rfl
  | ok d =>
    rw [hd] at htrim
    have hgenerate := Finding.generate_flush file d.scope.extents
      (Declarations.declared_of_ofLines hlines hd)
    rw [run_of_ofLines hd, run_of_ofLines htrim, Except.map, Except.ok.injEq,
      show (d.flush lines).declared = d.declared.map (Binding.flush lines) from rfl,
      show (d.flush lines).scope.extents = d.scope.extents from rfl, hgenerate, List.filter_map]
    simp only [keepsBlocks_trim.isDropped_map]
    rfl

theorem map_eq_error_iff {x : Except Fault (List Finding)} {g : List Finding → List Finding}
    {fault : Fault} : x.map g = .error fault ↔ x = .error fault := by
  cases x <;> simp [Except.map]

/-- Whether two findings in two files agree, columns being counted from the margins of their
lines. -/
structure Reindented (lines lines' : List Line) (f f' : Finding) : Prop where
  fields : { f with col := 0 } = { f' with col := 0 }
  col :
    f.col - (margin (lineAt lines f.line)).length = f'.col - (margin (lineAt lines' f'.line)).length

theorem reindented_of_flush {f f' : Finding} (h : f.flush lines = f'.flush lines') :
    Reindented lines lines' f f' :=
  ⟨congrArg (fun g : Finding => { g with col := 0 }) h, congrArg Finding.col h⟩

/-- Two files whose lines are equal when trimmed.  An analysis comes to no result exactly where a
line of code reads an element by a number that is too long, in both files alike.  Otherwise both
have the same findings in the same order, but for the margins. -/
theorem findings_keep_to_margins (hrules : k.rules.Compiles) (hlines : ∀ l ∈ lines, '\n' ∉ l)
    (hlines' : ∀ l ∈ lines', '\n' ∉ l) (h : lines.map trim = lines'.map trim) (file : String) :
    (∀ fault, run file lines k = .error fault ↔ fault = .longNumeral ∧
      ∃ raw ∈ lines, Source.isCommentLine raw = false ∧ k.Overlong (Source.code raw)) ∧
    (∀ fault, run file lines k = .error fault ↔ run file lines' k = .error fault) ∧
    ∀ fs, run file lines k = .ok fs →
      ∃ fs', run file lines' k = .ok fs' ∧ List.Forall₂ (Reindented lines lines') fs fs' := by
  have hsame : (run file lines k).map (List.map (Finding.flush lines)) =
      (run file lines' k).map (List.map (Finding.flush lines')) := by
    rw [← run_trim hlines, ← run_trim hlines', h]
  refine ⟨fun fault => ?_, fun fault => ?_, fun fs hfs => ?_⟩
  · rw [run_eq_error_iff]
    exact Declarations.ofLines_eq_error_iff hrules
  · rw [← map_eq_error_iff (g := List.map (Finding.flush lines)), hsame, map_eq_error_iff]
  · rw [hfs] at hsame
    cases hrun : run file lines' k with
    | error fault =>
      rw [hrun] at hsame
      cases hsame
    | ok fs' =>
      rw [hrun, Except.map, Except.map, Except.ok.injEq, ← List.forall₂_eq_eq_eq,
        List.forall₂_map_left_iff, List.forall₂_map_right_iff] at hsame
      exact ⟨fs', rfl, hsame.imp fun _ _ => reindented_of_flush⟩

/-- A declaration and a dereference, with margins and with blanks behind the code. -/
def sampleWide : List Line := ["  let x=a[0] ".toList, "\tif (a) x.y;".toList]

/-- The same with other margins. -/
def sampleNarrow : List Line := ["let x=a[0]".toList, "if (a) x.y;  ".toList]

theorem findings_keep_to_margins_sample :
    ∃ f f', run "a.js" sampleWide { rules := lookupRules } = .ok [f] ∧
      run "a.js" sampleNarrow { rules := lookupRules } = .ok [f'] ∧
      f.line = 2 ∧ f.col = 8 ∧ Reindented sampleWide sampleNarrow f f' := by
  have hrun : (run "a.js" sampleWide { rules := lookupRules }).toOption.map
      (·.map fun f => (f.line, f.col)) = some [(2, 8)] := by
    decide +kernel
  obtain ⟨-, -, hfound⟩ := findings_keep_to_margins (k := { rules := lookupRules })
    compiles_lookupRules (show ∀ l ∈ sampleWide, '\n' ∉ l by decide)
    (show ∀ l ∈ sampleNarrow, '\n' ∉ l by decide) (by decide) "a.js"
  obtain ⟨fs, hwide, hone⟩ := exists_of_toOption_map hrun
  obtain ⟨f, rfl, hf⟩ := List.map_eq_singleton_iff.mp hone
  obtain ⟨hline, hcol⟩ := Prod.mk.inj hf
  obtain ⟨fs', hnarrow, hsame⟩ := hfound [f] hwide
  obtain ⟨f', hpair, rfl⟩ : ∃ f', Reindented sampleWide sampleNarrow f f' ∧ fs' = [f'] := by
    simpa [List.forall₂_cons_left_iff] using hsame
  exact ⟨f, f', hwide, hnarrow, hline, hcol, hpair⟩

/-- Two files of one line each that are equal when trimmed, and in neither the analysis comes to a
result. -/
theorem reindented_analysis_ended_by_long_number :
    [longRead].map trim = [' ' :: longRead].map trim ∧
      (∀ l ∈ [longRead], '\n' ∉ l) ∧ (∀ l ∈ [' ' :: longRead], '\n' ∉ l) ∧ lookupRules.Compiles ∧
      run "a.js" [longRead] { rules := lookupRules } = .error .longNumeral ∧
      run "a.js" [' ' :: longRead] { rules := lookupRules } = .error .longNumeral := by
  have hspace : IsPad [' '] := by
    intro c hc
    rw [List.mem_singleton.mp hc]
    rfl
  have htrim : [longRead].map trim = [' ' :: longRead].map trim := by
    have hpads := trim_pads hspace isPad_nil longRead
    rw [List.append_nil, List.singleton_append] at hpads
    rw [List.map_singleton, List.map_singleton, hpads]
  have hfeed : '\n' ∉ longRead := not_mem_readOf isDecimal_of_mem_ones (by decide) (by decide)
  have hlines : ∀ l ∈ [longRead], '\n' ∉ l := List.forall_mem_singleton.mpr hfeed
  have hlines' : ∀ l ∈ [' ' :: longRead], '\n' ∉ l := by
    rw [List.forall_mem_singleton, List.mem_cons, not_or]
    exact ⟨by decide, hfeed⟩
  have hrun : run "a.js" [longRead] { rules := lookupRules } = .error .longNumeral :=
    run_eq_error_iff.mpr ((Declarations.ofLines_eq_error_iff compiles_lookupRules).mpr
      ⟨rfl, longRead, List.mem_cons_self, overlong_longRead⟩)
  refine ⟨htrim, hlines, hlines', compiles_lookupRules, hrun, ?_⟩
  rw [← map_eq_error_iff (g := List.map (Finding.flush [' ' :: longRead])),
    ← run_trim hlines', ← htrim, run_trim hlines, hrun]
  rfl

end Analysis

end NullAccess
