import NullAccess.Proofs.Analysis.Rewording

/-!
# What comments can change

A comment without braces is passed over wherever lines are read for their code: by the walk over the
declarations, by the search for guards and exits, and by the walk over the accesses.  One look back
is not made at code: whether the length of a sequence was checked is asked of the lines before a
read as they stand (`isLengthChecked`), and a comment may answer it.

So two files that differ in such comments have the same findings if they give the same answers to
the checks that are asked for (`comments_matter_in_length_checks`), and an answer given by a comment
alone takes a finding away (`finding_lost_to_comment`).
-/

namespace NullAccess

open Pattern

/-! ## Comments without braces -/

namespace Source

variable {l l' : Line}

/-- A comment line in which no brace stands. -/
def isQuiet (l : Line) : Bool := isCommentLine l && !l.contains '{' && !l.contains '}'

/-- Two lines that are equal, or of which both are comments without braces. -/
def SameCode (l l' : Line) : Prop := l = l' ∨ isQuiet l = true ∧ isQuiet l' = true

instance (l l' : Line) : Decidable (SameCode l l') := inferInstanceAs (Decidable (_ ∨ _))

/-- The line, or an empty comment for a comment without braces. -/
def silenced (l : Line) : Line := if isQuiet l then ['/', '/'] else l

theorem silenced_eq (h : SameCode l l') : silenced l = silenced l' := by
  rcases h with rfl | ⟨hl, hl'⟩
  · rfl
  · rw [silenced, silenced, if_pos hl, if_pos hl']

theorem silenced_of_code (h : isCommentLine l = false) : silenced l = l := by
  rw [silenced, isQuiet, h]
  rfl

theorem map_silenced {lines lines' : List Line} (h : List.Forall₂ SameCode lines lines') :
    lines.map silenced = lines'.map silenced := by
  induction h with
  | nil => rfl
  | cons hfirst _ ih => rw [List.map_cons, List.map_cons, silenced_eq hfirst, ih]

/-- A reading that is the same of all comments without braces is not changed by silencing them. -/
theorem read_silenced {α : Type} {f : Line → α} {v : α} (h : ∀ l, isQuiet l = true → f l = v)
    (l : Line) : f (silenced l) = f l := by
  by_cases hl : isQuiet l = true
  · rw [silenced, if_pos hl, h l hl, h _ rfl]
  · rw [silenced, if_neg hl]

theorem comment_of_isQuiet (h : isQuiet l = true) : isCommentLine l = true := by
  simp only [isQuiet, Bool.and_eq_true] at h
  exact h.1.1

theorem braceless_of_isQuiet (h : isQuiet l = true) : Text.Braceless l := by
  simp only [isQuiet, Bool.and_eq_true, Bool.not_eq_true', List.contains_eq_mem,
    decide_eq_false_iff_not] at h
  intro c hc
  exact ⟨fun heq => h.1.2 (heq ▸ hc), fun heq => h.2 (heq ▸ hc)⟩

/-- What a comment line begins with. -/
theorem head_of_isCommentLine (h : isCommentLine l = true) :
    ∃ c r, Text.trimLeft l = c :: r ∧ (c = '*' ∨ c = '/') := by
  unfold isCommentLine at h
  split at h
  · rename_i r heq
    exact ⟨_, r, heq, .inl rfl⟩
  · rename_i r heq
    exact ⟨_, _, heq, .inr rfl⟩
  · rename_i r heq
    exact ⟨_, _, heq, .inr rfl⟩
  · cases h

theorem occursIn_of_isCommentLine {b : Pattern} (h : b.startsInked = true)
    (hb : b.ignoresIndent = true)
    (hheads : ∀ r, (b.heads none).allows ('*' :: r) = false ∧
      (b.heads none).allows ('/' :: r) = false)
    (hl : isCommentLine l = true) : (start ++ (blanks ++ b)).occursIn l = false := by
  obtain ⟨c, r, htrim, hc⟩ := head_of_isCommentLine hl
  have hends : b.ends (Place.start (c :: r)) = [] := by
    refine matchAt_eq_none_iff.mp (matchAt_eq_none_of_heads ?_)
    rcases hc with rfl | rfl
    · exact (hheads r).1
    · exact (hheads r).2
  rw [occursIn_anchored h hb, htrim, hends]
  rfl

theorem keepsBlocks_silenced : KeepsBlocks silenced where
  comment := read_silenced (v := true) fun l hl => comment_of_isQuiet hl
  scope s l n := read_silenced (f := (s.readLine · n)) (v := s)
    (fun l hl => Scope.foldl_step_of_braceless (braceless_of_isQuiet hl) n _ s) l
  advance d := read_silenced (v := d) fun l hl =>
    Guard.advance_of_braceless (braceless_of_isQuiet hl) d
  pass inner := read_silenced (v := some inner) fun l hl => by
    have h := Guard.pass_append_of_braceless (braceless_of_isQuiet hl) inner []
    rwa [List.append_nil] at h
  opens l := by
    have hopens : ∀ l, isQuiet l = true → (Text.trimLeft l).head? ≠ some '{' := by
      intro l hl
      obtain ⟨c, r, htrim, hc⟩ := head_of_isCommentLine (comment_of_isQuiet hl)
      rw [htrim, List.head?_cons, Ne, Option.some_inj]
      rcases hc with rfl | rfl <;> decide
    exact Iff.of_eq (read_silenced (f := fun l => (Text.trimLeft l).head? = some '{') (v := False)
      (fun l hl => eq_false (hopens l hl)) l)
  exits := read_silenced (v := false) fun l hl => by
    rw [Guard.occursIn_exitStatement]
    exact occursIn_of_isCommentLine (by decide +kernel) (by decide +kernel)
      (fun r => ⟨rfl, rfl⟩) (comment_of_isQuiet hl)
  tries := read_silenced (v := false) fun l hl => by
    rw [Finding.occursIn_tryOpen]
    exact occursIn_of_isCommentLine (by decide +kernel) (by decide +kernel)
      (fun r => ⟨rfl, rfl⟩) (comment_of_isQuiet hl)

end Source

/-! ## The checks that are asked for -/

namespace Classifier

variable {k : Classifier} {code : Line} {n depth : Int} {lines lines' : List Line}

/-- The code of a line declares one variable and no function, the rules say that its initialiser may
give no value, and that reads an element: it is asked whether the length of `path` was checked
against `index`. -/
structure Asks (k : Classifier) (code : Line) (path : List Char) (index : Nat) : Prop where
  alone : Declaration.forEachLoop.occursIn code = false ∧ Declaration.function.findAll code = [] ∧
    [Declaration.arrow, Declaration.arrowSingle].filterMap (·.find? code) = [] ∧
    Declaration.route.find? code = none
  initialised : ∃ m ruling, Declaration.variableInit.find? code = some m ∧
    (initialiser (m.group 2)).isEmpty = false ∧ hasFallback (initialiser (m.group 2)) = false ∧
    k.rules.evaluate (initialiser (m.group 2)) = .ok ruling ∧ ruling.verdict = .mayBeAbsent ∧
    ∃ i, Declaration.indexed.matchStart? (initialiser (m.group 2)) = some i ∧ i.group 1 = path ∧
      Text.readNumeral? (i.group 2) = some index ∧ Text.isWritable (index + 1) = true

theorem isCheckedRead_congr {rhs : List Char}
    (h : ∀ i index, Declaration.indexed.matchStart? rhs = some i →
      Text.readNumeral? (i.group 2) = some index → Text.isWritable (index + 1) = true →
      isLengthChecked (i.group 1) index n lines = isLengthChecked (i.group 1) index n lines') :
    isCheckedRead rhs n lines = isCheckedRead rhs n lines' := by
  unfold isCheckedRead
  cases hi : Declaration.indexed.matchStart? rhs with
  | none => rfl
  | some i =>
    dsimp only
    cases hindex : Text.readNumeral? (i.group 2) with
    | none => rfl
    | some index =>
      dsimp only
      by_cases hwritable : Text.isWritable (index + 1) = true
      · rw [if_pos hwritable, if_pos hwritable, h i index hi hindex hwritable]
      · rw [if_neg hwritable, if_neg hwritable]

/-- Of the other lines, a classification sees the answers to what it asks. -/
theorem classify_congr
    (h : ∀ path index, k.Asks code path index →
      isLengthChecked path index n lines = isLengthChecked path index n lines') :
    k.classify code n depth lines = k.classify code n depth lines' := by
  unfold classify
  by_cases hloop : Declaration.forEachLoop.occursIn code = true
  · rw [if_pos hloop, if_pos hloop]
  rw [if_neg hloop, if_neg hloop]
  dsimp only
  split
  · rename_i hnone
    simp only [Bool.and_eq_true, List.isEmpty_iff, Option.toList_eq_nil_iff] at hnone
    obtain ⟨⟨hfunctions, harrows⟩, hroute⟩ := hnone
    cases hm : Declaration.variableInit.find? code with
    | none => rfl
    | some m =>
      unfold ofVariable
      dsimp only
      by_cases hgives :
          ((initialiser (m.group 2)).isEmpty || hasFallback (initialiser (m.group 2))) = true
      · rw [if_pos hgives, if_pos hgives]
      rw [if_neg hgives, if_neg hgives]
      simp only [Bool.or_eq_true, not_or, Bool.not_eq_true] at hgives
      cases hruling : k.rules.evaluate (initialiser (m.group 2)) with
      | error e => rfl
      | ok ruling =>
        dsimp only
        by_cases hverdict : ruling.verdict = .mayBeAbsent
        · rw [if_pos hverdict, if_pos hverdict,
            isCheckedRead_congr fun i index hi hindex hwritable =>
              h _ _ ⟨⟨Bool.eq_false_iff.mpr hloop, hfunctions, harrows, hroute⟩, m, ruling, hm,
                hgives.1, hgives.2, hruling, hverdict, i, hi, rfl, hindex, hwritable⟩]
        · rw [if_neg hverdict, if_neg hverdict]
  · rfl

/-- A check that is found to have been made leaves the variable undeclared. -/
theorem classify_of_asks {path : List Char} {index : Nat} (h : k.Asks code path index)
    (n depth : Int) (lines : List Line) : ∃ b, k.classify code n depth lines =
      .ok (if isLengthChecked path index n lines then [] else [b]) := by
  obtain ⟨hloop, hfunctions, harrows, hroute⟩ := h.alone
  obtain ⟨m, ruling, hm, hempty, hfallback, hruling, hverdict, i, hi, rfl, hindex, hwritable⟩ :=
    h.initialised
  have hvariable : k.classify code n depth lines = k.ofVariable m n depth lines := by
    simp only [classify, hloop, hfunctions, harrows, hroute, hm, Bool.false_eq_true, if_false,
      List.isEmpty_nil, Option.toList_none, Bool.and_self, if_true]
  have hread : isCheckedRead (initialiser (m.group 2)) n lines =
      .ok (isLengthChecked (i.group 1) index n lines) := by
    rw [isCheckedRead, hi]
    dsimp only
    rw [hindex]
    exact if_pos hwritable
  rw [hvariable]
  unfold ofVariable
  simp only [hempty, hfallback, hruling, hverdict, hread]
  cases isLengthChecked (i.group 1) index n lines with
  | true => exact ⟨default, rfl⟩
  | false => exact ⟨_, rfl⟩

end Classifier

namespace Declarations

variable {k : Classifier} {all all' ls : List Line} {d d' e e' : Declarations}
  {n : Int} {raw : Line}

theorem readLine_silenced (raw : Line) :
    d.readLine k all (Source.silenced raw) n = d.readLine k all raw n := by
  unfold readLine
  rw [Source.keepsBlocks_silenced.scope, Source.keepsBlocks_silenced.comment]
  cases hcomment : Source.isCommentLine raw with
  | true => rfl
  | false => rw [Source.silenced_of_code hcomment]

theorem readLines_silenced :
    readLines k all d n (ls.map Source.silenced) = readLines k all d n ls := by
  induction ls generalizing d n with
  | nil => rfl
  | cons raw rest ih =>
    rw [List.map_cons, readLines, readLines, readLine_silenced]
    cases d.readLine k all raw n with
    | error e => rfl
    | ok d' => exact ih

theorem readLines_congr
    (h : ∀ (i : Nat) raw path index, ls[i]? = some raw → Source.isCommentLine raw = false →
      k.Asks (Source.code raw) path index →
      Classifier.isLengthChecked path index (n + i) all =
        Classifier.isLengthChecked path index (n + i) all') :
    readLines k all d n ls = readLines k all' d n ls := by
  induction ls generalizing d n with
  | nil => rfl
  | cons raw rest ih =>
    have hfirst : d.readLine k all raw n = d.readLine k all' raw n := by
      cases hcomment : Source.isCommentLine raw with
      | true => rw [readLine_of_comment hcomment, readLine_of_comment hcomment]
      | false =>
        have hclassify : ∀ depth, k.classify (Source.code raw) n depth all =
            k.classify (Source.code raw) n depth all' := by
          intro depth
          refine Classifier.classify_congr fun path index hasks => ?_
          have hhere := h 0 raw path index rfl hcomment hasks
          rwa [show n + ((0 : Nat) : Int) = n by omega] at hhere
        simp only [readLine, hclassify]
    rw [readLines, readLines, hfirst]
    cases d.readLine k all' raw n with
    | error e => rfl
    | ok d' =>
      refine ih fun i raw' path index hraw hcomment hasks => ?_
      have hlater := h (i + 1) raw' path index hraw hcomment hasks
      rwa [show n + ((i + 1 : Nat) : Int) = n + 1 + (i : Int) by omega] at hlater

theorem found_of_readLine (h : d.readLine k all raw n = .ok e) :
    ∃ found, e.declared = d.declared ++ found ∧ (∀ b ∈ found, b.originLine = n) ∧
      (Source.isCommentLine raw = false →
        ∃ depth, k.classify (Source.code raw) n depth all = .ok found) := by
  cases hcomment : Source.isCommentLine raw with
  | true =>
    rw [readLine_of_comment hcomment] at h
    cases h
    exact ⟨[], (List.append_nil _).symm, List.forall_mem_nil _, nofun⟩
  | false =>
    rw [readLine, if_neg (by rw [hcomment]; exact Bool.false_ne_true)] at h
    cases hfound : k.classify (Source.code raw) n (d.scope.readLine raw n).depth all with
    | error fault =>
      rw [hfound] at h
      cases h
    | ok found =>
      rw [hfound] at h
      cases h
      exact ⟨found, rfl,
        fun b hb => (Classifier.clear_of_classify hfound hb).1, fun _ => ⟨_, hfound⟩⟩

/-- What is declared on a line is told from the rest by its line. -/
theorem filter_declared {found : List Binding} (hfound : ∀ b ∈ found, b.originLine = n)
    (h : readLines k all d (n + 1) ls = .ok e) :
    ∃ later, e.declared = d.declared ++ later ∧
      (found ++ later).filter (·.originLine == n) = found := by
  obtain ⟨later, hlater, horigin⟩ := declared_of_readLines h
  refine ⟨later, hlater, ?_⟩
  have hkeep : found.filter (·.originLine == n) = found :=
    List.filter_eq_self.mpr fun b hb => by simpa using hfound b hb
  have hdrop : later.filter (·.originLine == n) = [] := by
    rw [List.filter_eq_nil_iff]
    intro b hb hline
    obtain ⟨i, -, -, -, heq, -⟩ := horigin b hb
    rw [beq_iff_eq] at hline
    omega
  rw [List.filter_append, hkeep, hdrop, List.append_nil]

/-- Two walks over the same lines that declare the same were given the same answers. -/
theorem checks_of_declared (h : readLines k all d n ls = .ok e)
    (h' : readLines k all' d' n ls = .ok e') (hstart : d.declared = d'.declared)
    (hend : e.declared = e'.declared) :
    ∀ (i : Nat) raw path index, ls[i]? = some raw → Source.isCommentLine raw = false →
      k.Asks (Source.code raw) path index →
      Classifier.isLengthChecked path index (n + i) all =
        Classifier.isLengthChecked path index (n + i) all' := by
  induction ls generalizing d d' n with
  | nil => exact fun i raw path index hraw => by cases hraw
  | cons first rest ih =>
    obtain ⟨d₁, hfirst, hrest⟩ := readLines_cons_eq_ok h
    obtain ⟨d₁', hfirst', hrest'⟩ := readLines_cons_eq_ok h'
    obtain ⟨found, hd₁, hline, hclassify⟩ := found_of_readLine hfirst
    obtain ⟨found', hd₁', hline', hclassify'⟩ := found_of_readLine hfirst'
    obtain ⟨later, he, hfilter⟩ := filter_declared hline hrest
    obtain ⟨later', he', hfilter'⟩ := filter_declared hline' hrest'
    -- Later declarations are told apart by their lines, so those of this line agree.
    have hsame : found = found' := by
      rw [he, he', hd₁, hd₁', hstart, List.append_assoc, List.append_assoc,
        List.append_cancel_left_eq] at hend
      rw [← hfilter, hend, hfilter']
    subst hsame
    intro i raw path index hraw hcomment hasks
    cases i with
    | zero =>
      obtain rfl : first = raw := Option.some_inj.mp hraw
      obtain ⟨depth, hfound⟩ := hclassify hcomment
      obtain ⟨depth', hfound'⟩ := hclassify' hcomment
      obtain ⟨b, hb⟩ := Classifier.classify_of_asks hasks n depth all
      obtain ⟨b', hb'⟩ := Classifier.classify_of_asks hasks n depth' all'
      rw [hb, Except.ok.injEq] at hfound
      rw [hb', Except.ok.injEq, ← hfound] at hfound'
      rw [show n + ((0 : Nat) : Int) = n by omega]
      cases hchecked : Classifier.isLengthChecked path index n all <;>
        cases hchecked' : Classifier.isLengthChecked path index n all' <;>
        simp [hchecked, hchecked'] at hfound' ⊢
    | succ i =>
      have hlater :=
        ih hrest hrest' (by rw [hd₁, hd₁', hstart]) i raw path index hraw hcomment hasks
      rwa [show n + ((i + 1 : Nat) : Int) = n + 1 + (i : Int) by omega]

end Declarations

/-! ## Findings -/

namespace Guard

theorem zones_silenced (lines : List Line) (extents : Extents) (n : Int) (depth : Nat) (l : Line)
    (rest : List Line) (name : List Char) :
    Site.zones ⟨lines.map Source.silenced, extents, n, depth, Source.silenced l,
        rest.map Source.silenced⟩ name =
      Site.zones ⟨lines, extents, n, depth, l, rest⟩ name := by
  unfold Site.zones
  dsimp only
  rw [Source.keepsBlocks_silenced.comment]
  cases hcomment : Source.isCommentLine l with
  | true => rfl
  | false =>
    have hinside : Site.insideGuard ⟨lines.map Source.silenced, extents, n, depth, l,
        rest.map Source.silenced⟩ name (Source.code l) =
        Site.insideGuard ⟨lines, extents, n, depth, l, rest⟩ name (Source.code l) := by
      funext kind
      simp only [Site.insideGuard, Site.ownEnd, Source.keepsBlocks_silenced.ownBlockEnd_map]
    simp only [Source.silenced_of_code hcomment, hinside, Site.afterGuard, Site.afterBlockGuard,
      Site.optionalGuard, Site.around, Site.ownEnd, Source.keepsBlocks_silenced.blockEnd_map,
      Source.keepsBlocks_silenced.ownBlockEnd_map, Source.keepsBlocks_silenced.hasExit_map]
    rfl

theorem zonesFrom_silenced (lines : List Line) (extents : Extents) (name : List Char) (n : Int)
    (depth : Nat) (ls : List Line) :
    zonesFrom (lines.map Source.silenced) extents name n depth (ls.map Source.silenced) =
      zonesFrom lines extents name n depth ls := by
  induction ls generalizing n depth with
  | nil => rfl
  | cons l rest ih =>
    rw [List.map_cons, zonesFrom, zonesFrom, zones_silenced,
      Source.keepsBlocks_silenced.advance, ih]

end Guard

namespace Finding

theorem walk_silenced (file : String) (bindings : List Binding) (subjects : List Subject)
    (scope : Scope) (n : Int) (ls : List Line) :
    walk file bindings subjects scope n (ls.map Source.silenced) =
      walk file bindings subjects scope n ls := by
  have hfinding : ∀ (s : Subject) (scope : Scope) (n : Int) (raw : Line),
      s.finding? file n (Source.silenced raw) scope = s.finding? file n raw scope := by
    intro s scope n raw
    cases hcomment : Source.isCommentLine raw with
    | true =>
      unfold Subject.finding?
      rw [Source.keepsBlocks_silenced.comment, hcomment]
      rfl
    | false => rw [Source.silenced_of_code hcomment]
  induction ls generalizing scope n with
  | nil => rfl
  | cons raw rest ih =>
    simp only [List.map_cons, walk, Source.keepsBlocks_silenced.scope, ih, hfinding]

theorem generate_silenced (file : String) (lines : List Line) (bindings : List Binding)
    (extents : Extents) :
    generate file (lines.map Source.silenced) bindings extents =
      generate file lines bindings extents := by
  simp only [generate, walk_silenced, Guard.findZones, Guard.zonesFrom_silenced]

end Finding

namespace Analysis

variable {k : Classifier} {lines lines' : List Line}

/-- The findings of a file with its declarations, as far as comments go. -/
theorem run_silenced {d : Declarations} (h : List.Forall₂ Source.SameCode lines lines')
    (hd : Declarations.ofLines k lines = .ok d) (hd' : Declarations.ofLines k lines' = .ok d)
    (file : String) : run file lines k = run file lines' k := by
  have hsame := Source.map_silenced h
  rw [run_of_ofLines hd, run_of_ofLines hd']
  simp only [← Finding.generate_silenced file lines, ← Finding.generate_silenced file lines',
    ← Source.keepsBlocks_silenced.isDropped_map lines,
    ← Source.keepsBlocks_silenced.isDropped_map lines', hsame]

/-- The answers that two files give to the checks of a length that the first one asks for agree. -/
def AgreeOnChecks (k : Classifier) (lines lines' : List Line) : Prop :=
  ∀ (i : Nat) raw path index, lines[i]? = some raw → Source.isCommentLine raw = false →
    k.Asks (Source.code raw) path index →
    Classifier.isLengthChecked path index (1 + i) lines =
      Classifier.isLengthChecked path index (1 + i) lines'

/-- Two files that are equal but for comments without braces.  An analysis comes to no result in
both or in neither.  They declare the same exactly if they agree on the checks of a length that are
asked for, and then the findings are the same. -/
theorem comments_matter_in_length_checks (hrules : k.rules.Compiles)
    (h : List.Forall₂ Source.SameCode lines lines') (file : String) :
    (∀ fault, run file lines k = .error fault ↔ run file lines' k = .error fault) ∧
    (∀ d d', Declarations.ofLines k lines = .ok d → Declarations.ofLines k lines' = .ok d' →
      (d.declared = d'.declared ↔ AgreeOnChecks k lines lines')) ∧
    (AgreeOnChecks k lines lines' → run file lines k = run file lines' k) := by
  have hread : ∀ all, Declarations.readLines k all {} 1 lines' =
      Declarations.readLines k all {} 1 lines := by
    intro all
    rw [← Declarations.readLines_silenced, ← Source.map_silenced h, Declarations.readLines_silenced]
  have hsame : AgreeOnChecks k lines lines' →
      Declarations.ofLines k lines' = Declarations.ofLines k lines := by
    intro hchecks
    rw [Declarations.ofLines, hread, Declarations.ofLines, Declarations.readLines_congr hchecks]
  refine ⟨fun fault => ?_, fun d d' hd hd' => ⟨fun hdeclared => ?_, fun hchecks => ?_⟩,
    fun hchecks => ?_⟩
  · rw [run_eq_error_iff, run_eq_error_iff, Declarations.ofLines, Declarations.ofLines, hread,
      Declarations.readLines_eq_error_iff hrules, Declarations.readLines_eq_error_iff hrules]
  · rw [Declarations.ofLines, hread] at hd'
    exact Declarations.checks_of_declared hd hd' rfl hdeclared
  · rw [hsame hchecks, hd, Except.ok.injEq] at hd'
    rw [hd']
  · cases hd : Declarations.ofLines k lines with
    | error fault => rw [run_eq_error_iff.mpr hd, run_eq_error_iff.mpr ((hsame hchecks).trans hd)]
    | ok d => exact run_silenced h hd ((hsame hchecks).trans hd) file

/-- A read of an element and its use, behind a comment. -/
def readBehind (comment : String) : List Line :=
  [comment.toList, "let x=a[0]".toList, "x.y;".toList]

theorem sameCode_readBehind {comment comment' : String} (h : Source.isQuiet comment.toList = true)
    (h' : Source.isQuiet comment'.toList = true) :
    List.Forall₂ Source.SameCode (readBehind comment) (readBehind comment') :=
  .cons (.inr ⟨h, h'⟩) (.cons (.inl rfl) (.cons (.inl rfl) .nil))

/-- Two comments that hold no check of a length. -/
theorem comments_matter_in_length_checks_sample :
    AgreeOnChecks { rules := lookupRules } (readBehind "// see a.length") (readBehind "/* */") ∧
      run "a.js" (readBehind "// see a.length") { rules := lookupRules } =
        run "a.js" (readBehind "/* */") { rules := lookupRules } := by
  have hdeclared : ((Declarations.ofLines { rules := lookupRules }
        (readBehind "// see a.length")).toOption.map (·.declared)).isSome = true ∧
      (Declarations.ofLines { rules := lookupRules } (readBehind "/* */")).toOption.map
        (·.declared) =
        (Declarations.ofLines { rules := lookupRules }
          (readBehind "// see a.length")).toOption.map (·.declared) := by
    decide +kernel
  have hsame : List.Forall₂ Source.SameCode (readBehind "// see a.length") (readBehind "/* */") :=
    sameCode_readBehind (by decide) (by decide)
  obtain ⟨-, hagree, hrun⟩ := comments_matter_in_length_checks (k := { rules := lookupRules })
    compiles_lookupRules hsame "a.js"
  obtain ⟨declared, hsome⟩ := Option.isSome_iff_exists.mp hdeclared.1
  obtain ⟨d, hd, hknown⟩ := exists_of_toOption_map hsome
  obtain ⟨d', hd', hknown'⟩ := exists_of_toOption_map (hdeclared.2.trans hsome)
  have hchecks := (hagree d d' hd hd').mp (hknown.trans hknown'.symm)
  exact ⟨hchecks, hrun hchecks⟩

/-- Two files that differ in a comment without braces, and only in one of them a finding is made. -/
theorem finding_lost_to_comment :
    List.Forall₂ Source.SameCode (readBehind "// if (a.length > 0)") (readBehind "//") ∧
      lookupRules.Compiles ∧
      run "a.js" (readBehind "// if (a.length > 0)") { rules := lookupRules } = .ok [] ∧
      ∃ f, run "a.js" (readBehind "//") { rules := lookupRules } = .ok [f] ∧ f.line = 3 := by
  have hlines :
      (run "a.js" (readBehind "// if (a.length > 0)") { rules := lookupRules }).toOption.map
        (·.map (·.line)) = some [] ∧
      (run "a.js" (readBehind "//") { rules := lookupRules }).toOption.map (·.map (·.line)) =
        some [3] := by
    decide +kernel
  obtain ⟨fs, hrun, hnone⟩ := exists_of_toOption_map hlines.1
  obtain ⟨fs', hrun', hone⟩ := exists_of_toOption_map hlines.2
  obtain rfl : fs = [] := List.map_eq_nil_iff.mp hnone
  obtain ⟨f, rfl, hf⟩ := List.map_eq_singleton_iff.mp hone
  exact ⟨sameCode_readBehind (by decide) (by decide), compiles_lookupRules, hrun, f, hrun', hf⟩

end Analysis

end NullAccess
