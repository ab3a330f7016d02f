import NullAccess.Proofs.Indent.Margins
import NullAccess.Proofs.Pattern.Reads

/-!
# Declarations behind a margin

A line of code declares the same bindings wherever it is indented; they only begin further on by the
margin (`classify_pads`).

The initialiser of a variable goes to the end of the line, so in a line with blanks behind it the
match goes into these.  The initialiser is trimmed, and that makes no difference, but in one case:
where the sign of the declaration ends the line there is no match, and with blanks behind it there
is one whose initialiser is empty (`find?_variableInit_pads`).  Neither declares anything.
-/

namespace NullAccess

open Text Pattern

/-! ## Variables -/

namespace Declaration

variable {s v : Place} {t u w : List Char}

/-- A declaration up to the sign of its initialiser. -/
def assignment : Pattern :=
  declarator ++ plainName 1 ++ blanks ++ opt (chr ':' ++ blanks ++ some1Few (noneOf "=")) ++
    chr '=' ++ ahead false (oneOf "=>")

/-- What follows the sign. -/
def initialised : Pattern := blanks ++ group 2 (some1 inLine)

theorem find?_variableInit (t : List Char) :
    variableInit.find? t = (assignment ++ initialised).find? t :=
  findIn_congr (fun s => ends_seq_assoc assignment blanks (group 2 (some1 inLine)) s) [] t

theorem steady_assignment : Steady assignment := by constructor <;> decide +kernel

/-- A declaration goes to the first sign. -/
theorem exists_sign (hv : v ∈ assignment.ends s) :
    ∃ r, s.after = r ++ '=' :: v.after ∧ '=' ∉ r := by
  obtain ⟨v₂, hv₂, hahead⟩ := mem_ends_seq.mp hv
  obtain ⟨v₁, hv₁, hsign⟩ := mem_ends_seq.mp hv₂
  obtain ⟨rest, hafter, rfl⟩ := mem_ends_chr.mp hsign
  have hlast : v.after = rest := by
    rw [ends] at hahead
    split at hahead
    · rw [List.mem_singleton.mp hahead]
    · cases hahead
  obtain ⟨r, hr, hnot⟩ := exists_read_of_avoids (c := '=') (by decide +kernel) hv₁
  exact ⟨r, by rw [hr, hafter, hlast], hnot⟩

theorem ends_initialised_of_nil (hv : v.after = []) : initialised.ends v = [] := by
  rw [List.eq_nil_iff_forall_not_mem]
  intro e he
  have hlt := ends_lt (a := initialised) rfl he
  rw [hv] at hlt
  cases hlt

theorem exists_end_initialised (hread : ∀ c ∈ v.after, (c != '\n') = true) (hv : v.after ≠ []) :
    ∃ e, (initialised.ends v).head? = some e := by
  obtain ⟨c, r, hafter⟩ := List.exists_cons_of_ne_nil hv
  obtain ⟨before, after, groups⟩ := v
  obtain rfl : after = c :: r := hafter
  obtain ⟨hc, hr⟩ := List.forall_mem_cons.mp hread
  have hrun := head?_ends_group (n := 2)
    (head?_ends_some1 (q := (· != '\n')) (t := []) hc hr nofun before groups)
  rw [List.append_nil] at hrun
  have hblanks : (⟨before, c :: r, groups⟩ : Place) ∈ blanks.ends ⟨before, c :: r, groups⟩ :=
    (mem_rounds_one (c :: r) before ' ' groups).mpr ⟨[], c :: r, rfl, List.forall_mem_nil _, rfl⟩
  have hmem := mem_ends_seq.mpr ⟨_, hblanks, List.mem_of_mem_head? hrun⟩
  exact Option.isSome_iff_exists.mp (List.isSome_head?.mpr (List.ne_nil_of_mem hmem))

/-- The initialiser of a variable is the rest of the line, but for blanks. -/
theorem exists_initialised (hlf : '\n' ∉ v.whole) (hv : v.after ≠ []) :
    ∃ e, (initialised.ends v).head? = some e ∧ e.after = [] ∧
      trim ((e.group? 2).getD []) = trim v.after ∧ e.group? 1 = v.group? 1 := by
  have hinLine : ∀ c ∈ v.whole, (c != '\n') = true := by
    intro c hc
    simpa using fun heq : c = '\n' => hlf (heq ▸ hc)
  obtain ⟨e, he⟩ := exists_end_initialised
    (fun c hc => hinLine c (List.mem_append_right _ hc)) hv
  have hafter : e.after = [] := after_of_some1 he hinLine
  have hmem := List.mem_of_mem_head? he
  refine ⟨e, he, hafter, ?_, group?_of_leaves (a := initialised) rfl hmem⟩
  obtain ⟨v₁, hv₁, hgroup⟩ := mem_ends_seq.mp hmem
  obtain ⟨p, r, hr, hp, rfl⟩ := (mem_rounds_one v.after v.before ' ' v.groups).mp hv₁
  obtain ⟨e', -, rfl⟩ := List.mem_map.mp hgroup
  have hkept : r.take (r.length - e'.after.length) = r := by
    rw [show e'.after = [] from hafter]
    simp
  have htrim := trim_pads hp isPad_nil r
  rw [List.append_nil, ← hr] at htrim
  simp [Place.group?, hkept, htrim]

/-- What two matches of a declaration have in common that declare the same. -/
structure SameInit (m' m : Match) : Prop where
  name : m'.group 1 = m.group 1
  value : trim (m'.group 2) = trim (m.group 2)
  stop' : m'.last.after = []
  stop : m.last.after = []

theorem matchAt_of_head {e : Place} (hv : (assignment.ends s).head? = some v)
    (he : (initialised.ends v).head? = some e) :
    (assignment ++ initialised).matchAt s = some ⟨s, e⟩ := by
  rw [matchAt_eq, head?_ends_seq hv he]
  rfl

theorem matchAt_of_after_nil (h : ∀ v ∈ assignment.ends s, v.after = []) :
    (assignment ++ initialised).matchAt s = none := by
  rw [matchAt_eq_none_iff, ends_seq, List.flatMap_eq_nil_iff]
  exact fun v hv => ends_initialised_of_nil (h v hv)

/-- Where the sign ends the line, nothing else ends a declaration. -/
theorem matchAt_of_sign {r : List Char} (hs : s.after = r ++ ['=']) (hr : '=' ∉ r) :
    (assignment ++ initialised).matchAt s = none := by
  refine matchAt_of_after_nil fun v hv => ?_
  obtain ⟨r', hr', -⟩ := exists_sign hv
  exact ((List.append_cons_inj_of_notMem hr List.not_mem_nil).mp (hs.symm.trans hr')).2.2.symm

/-- At one place, the two matches declare the same, or the sign ends the line. -/
theorem matchAt_initialised (hu : IsPad u) (hw : IsPad w)
    (hlf : '\n' ∉ ((s.trail w).indent u).whole) :
    Option.Rel SameInit ((assignment ++ initialised).matchAt ((s.trail w).indent u))
        ((assignment ++ initialised).matchAt s) ∨
      (∃ r, s.after = r ++ ['='] ∧ '=' ∉ r) ∧
        ∃ m', (assignment ++ initialised).matchAt ((s.trail w).indent u) = some m' ∧
          trim (m'.group 2) = [] := by
  have hpads := ends_pads steady_assignment hu hw s
  cases hends : assignment.ends s with
  | nil =>
    rw [hends, List.map_nil] at hpads
    rw [matchAt_of_after_nil (by rw [hpads]; exact List.forall_mem_nil _),
      matchAt_of_after_nil (by rw [hends]; exact List.forall_mem_nil _)]
    exact .inl .none
  | cons v rest =>
    have hv : v ∈ assignment.ends s := hends ▸ List.mem_cons_self
    have hhead : (assignment.ends s).head? = some v := by rw [hends, List.head?_cons]
    have hhead' : (assignment.ends ((s.trail w).indent u)).head? = some ((v.trail w).indent u) := by
      rw [hpads, hends, List.map_cons, List.head?_cons]
    have hlf' : '\n' ∉ ((v.trail w).indent u).whole := by
      rwa [whole_of_mem_ends assignment _ _ (List.mem_of_mem_head? hhead')]
    have hexists : v.after ++ w ≠ [] → _ := fun h => exists_initialised hlf' h
    by_cases hnil : v.after = []
    · obtain ⟨r, hr, hnot⟩ := exists_sign hv
      rw [hnil] at hr
      by_cases hempty : w = []
      · have hr' : ((s.trail w).indent u).after = r ++ ['='] := by
          rw [← hr, hempty]
          exact List.append_nil _
        rw [matchAt_of_sign hr hnot, matchAt_of_sign hr' hnot]
        exact .inl .none
      · obtain ⟨e, he, -, hvalue, -⟩ := hexists (by rw [hnil]; exact hempty)
        refine .inr ⟨⟨r, hr, hnot⟩, _, matchAt_of_head hhead' he, hvalue.trans ?_⟩
        change trim (v.after ++ w) = []
        rw [hnil, List.nil_append, trim_of_isPad hw]
    · rw [Place.whole_pads] at hlf'
      obtain ⟨e', he', hafter', hvalue', hname'⟩ := hexists (by simp [hnil])
      obtain ⟨e, he, hafter, hvalue, hname⟩ := exists_initialised
        (fun h => hlf' (List.mem_append_left w (List.mem_append_right u h))) hnil
      rw [matchAt_of_head hhead he, matchAt_of_head hhead' he']
      refine .inl (.some ⟨?_, ?_, hafter', hafter⟩)
      · change (e'.group? 1).getD [] = (e.group? 1).getD []
        rw [hname', hname]
        exact congrArg (Option.getD · []) (Place.group?_trail w v 1)
      · have htrim := trim_pads isPad_nil hw v.after
        rw [List.nil_append] at htrim
        exact hvalue'.trans (htrim.trans hvalue.symm)

theorem startsInked_initialised : (assignment ++ initialised).startsInked = true := by
  decide +kernel

theorem findIn_of_sign {r : List Char} (hr : '=' ∉ r) (before : List Char) :
    (assignment ++ initialised).findIn before (r ++ ['=']) = none := by
  induction r generalizing before with
  | nil =>
    rw [List.nil_append, findIn_cons, matchAt_of_sign (r := []) rfl hr,
      findIn_pad startsInked_initialised isPad_nil]
    rfl
  | cons c r ih =>
    rw [List.cons_append, findIn_cons, matchAt_of_sign (r := c :: r) rfl hr,
      ih fun h => hr (List.mem_cons_of_mem c h)]
    rfl

theorem findIn_initialised (hu : IsPad u) (hw : IsPad w) (before : List Char)
    (hlf : '\n' ∉ u ++ (before.reverse ++ t) ++ w) :
    Option.Rel SameInit ((assignment ++ initialised).findIn (before ++ u.reverse) (t ++ w))
        ((assignment ++ initialised).findIn before t) ∨
      (assignment ++ initialised).findIn before t = none ∧
        ∃ m', (assignment ++ initialised).findIn (before ++ u.reverse) (t ++ w) = some m' ∧
          trim (m'.group 2) = [] := by
  induction t generalizing before with
  | nil =>
    rw [List.nil_append, findIn_pad startsInked_initialised hw,
      findIn_pad startsInked_initialised isPad_nil]
    exact .inl .none
  | cons c r ih =>
    have hplace : ((⟨before, c :: r, []⟩ : Place).trail w).indent u =
        ⟨before ++ u.reverse, c :: (r ++ w), []⟩ := rfl
    have hhere := matchAt_initialised (s := ⟨before, c :: r, []⟩) hu hw (by rwa [Place.whole_pads])
    rw [hplace] at hhere
    rw [List.cons_append, findIn_cons, findIn_cons]
    rcases hhere with hrel | ⟨⟨r', hr', hnot⟩, m', hm', hvalue⟩
    · rcases ih (c :: before) (by simpa using hlf) with hrest | ⟨hnone, m', hm', hvalue⟩
      · exact .inl (rel_orElse hrel hrest)
      · generalize (assignment ++ initialised).matchAt ⟨before ++ u.reverse, c :: (r ++ w), []⟩ = x
          at hrel ⊢
        generalize (assignment ++ initialised).matchAt ⟨before, c :: r, []⟩ = y at hrel ⊢
        cases hrel with
        | some hm => exact .inl (.some hm)
        | none => exact .inr ⟨hnone, m', hm', hvalue⟩
    · refine .inr ⟨?_, m', ?_, hvalue⟩
      · rw [← findIn_cons, show c :: r = r' ++ ['='] from hr', findIn_of_sign hnot]
      · rw [hm']
        rfl

/-- Behind the margin a declaration is found as it is found in the code alone.  Only where the sign
ends the code, and blanks stand behind it, one without an initialiser is found in addition. -/
theorem find?_variableInit_pads (hu : IsPad u) (hw : IsPad w) (hlf : '\n' ∉ u ++ t ++ w) :
    Option.Rel SameInit (variableInit.find? (u ++ t ++ w)) (variableInit.find? t) ∨
      variableInit.find? t = none ∧
        ∃ m', variableInit.find? (u ++ t ++ w) = some m' ∧ trim (m'.group 2) = [] := by
  rw [find?_variableInit, find?_variableInit, find?, find?, List.append_assoc,
    findIn_skip startsInked_initialised hu, List.append_nil]
  exact findIn_initialised hu hw [] (by simpa using hlf)

end Declaration

/-! ## Bindings -/

/-- The binding of an indented line of code as one of the line of code alone. -/
def Binding.outdent (u t : List Char) (b : Binding) : Binding :=
  { b with originCol := min (b.originCol - u.length) t.length }

namespace Classifier

variable {k : Classifier} {t u w : List Char} {n depth : Int} {lines : List Line} {m m' : Match}

theorem initialiser_congr {x y : List Char} (h : trim x = trim y) :
    initialiser x = initialiser y := by
  rw [initialiser, initialiser, h]

theorem isInk_of_indexed {rhs : List Char} {i : Match}
    (h : Declaration.indexed.matchStart? rhs = some i) : IsInk (i.group 1) := by
  have hmem := (isMatch_of_matchAt h).mem
  obtain ⟨v₃, hv₃, hclose⟩ := mem_ends_seq.mp hmem
  obtain ⟨v₂, hv₂, hindex⟩ := mem_ends_seq.mp hv₃
  obtain ⟨v₁, hv₁, hopen⟩ := mem_ends_seq.mp hv₂
  obtain ⟨v₀, -, hpath⟩ := mem_ends_seq.mp hv₁
  obtain ⟨path, hgroup, hink⟩ :=
    exists_ink_of_run rejectsBlanks_isPathChar rejectsBlanks_isPathChar hpath
  have hsame : i.last.group? 1 = v₁.group? 1 := by
    rw [group?_of_leaves (n := 1) rfl hclose, group?_of_leaves (n := 1) rfl hindex,
      group?_of_leaves (n := 1) rfl hopen]
  rw [Match.group, Match.group?, hsame, hgroup]
  exact hink

theorem isLengthChecked_trim {path : List Char} (hpath : IsInk path) (index : Nat) (n : Int)
    (lines : List Line) :
    isLengthChecked path index n (lines.map trim) = isLengthChecked path index n lines := by
  have hoccurs : ∀ (sign : String), IsInk sign.toList → ∀ (bound : Nat) (l : Line),
      (Declaration.lengthCheck path sign bound).occursIn (trim l) =
        (Declaration.lengthCheck path sign bound).occursIn l := by
    intro sign hsign bound l
    exact eq_of_pads (fun hu hw t =>
      occursIn_pads (Declaration.steady_lengthCheck hpath hsign bound) hu hw t) l
  unfold isLengthChecked
  simp only [slice_map, List.any_map, Function.comp_def,
    hoccurs ">" ⟨by decide, not_blank_of_all rfl⟩, hoccurs ">=" ⟨by decide, not_blank_of_all rfl⟩]

theorem isCheckedRead_trim (rhs : List Char) (n : Int) (lines : List Line) :
    isCheckedRead rhs n (lines.map trim) = isCheckedRead rhs n lines := by
  unfold isCheckedRead
  cases hi : Declaration.indexed.matchStart? rhs with
  | none => rfl
  | some i => simp only [isLengthChecked_trim (isInk_of_indexed hi)]

theorem ofVariable_of_empty (h : trim (m.group 2) = []) :
    k.ofVariable m n depth lines = .ok [] := by
  have hempty : initialiser (m.group 2) = [] := initialiser_congr (y := []) h
  rw [ofVariable, hempty]
  rfl

theorem ofVariable_pads (h : Declaration.SameInit m' m)
    (hstop : min ((m'.stopCol : Int) - u.length) t.length = m.stopCol) :
    (k.ofVariable m' n depth lines).map (List.map (Binding.outdent u t)) =
      k.ofVariable m n depth (lines.map trim) := by
  unfold ofVariable
  rw [initialiser_congr h.value, h.name]
  dsimp only
  rw [isCheckedRead_trim]
  split
  · rfl
  · split
    · rfl
    · split
      · split
        · rfl
        · rfl
        · simp only [Except.map, List.map_cons, List.map_nil, Binding.outdent, hstop]
      · rfl

/-! ### Names -/

theorem isInk_of_variableInit {code : Line} (h : Declaration.variableInit.find? code = some m) :
    IsInk (m.group 1) := by
  have hmem := (isMatch_of_find? h).mem
  obtain ⟨v₆, hv₆, hvalue⟩ := mem_ends_seq.mp hmem
  obtain ⟨v₅, hv₅, hblanks⟩ := mem_ends_seq.mp hv₆
  obtain ⟨v₄, hv₄, hahead⟩ := mem_ends_seq.mp hv₅
  obtain ⟨v₃, hv₃, hsign⟩ := mem_ends_seq.mp hv₄
  obtain ⟨v₂, hv₂, htype⟩ := mem_ends_seq.mp hv₃
  obtain ⟨v₁, hv₁, hgap⟩ := mem_ends_seq.mp hv₂
  obtain ⟨v₀, -, hname⟩ := mem_ends_seq.mp hv₁
  obtain ⟨name, hgroup, hink⟩ :=
    exists_ink_of_run rejectsBlanks_isNameStart rejectsBlanks_isNameChar hname
  have hsame : m.last.group? 1 = v₁.group? 1 := by
    rw [group?_of_leaves (n := 1) rfl hvalue, group?_of_leaves (n := 1) rfl hblanks,
      group?_of_leaves (n := 1) rfl hahead, group?_of_leaves (n := 1) rfl hsign,
      group?_of_leaves (n := 1) rfl htype, group?_of_leaves (n := 1) rfl hgap]
  rw [Match.group, Match.group?, hsame, hgroup]
  exact hink

theorem isInk_of_isPlainName {name : List Char} (h : Source.isPlainName name = true) :
    IsInk name := by
  cases name with
  | nil => cases h
  | cons c r =>
    obtain ⟨hc, hr⟩ := Bool.and_eq_true_iff.mp h
    refine ⟨List.cons_ne_nil c r, fun d hd => ?_⟩
    cases hblank : isBlank d with
    | false => rfl
    | true =>
      rcases List.mem_cons.mp hd with rfl | hd
      · rw [eq_false_of_rejectsBlanks rejectsBlanks_isNameStart hblank] at hc
        cases hc
      · have hread := List.all_eq_true.mp hr d hd
        rw [eq_false_of_rejectsBlanks rejectsBlanks_isNameChar hblank] at hread
        cases hread

theorem isInk_of_ofParams {function params line : List Char} {col : Nat} {b : Binding}
    (h : b ∈ k.ofParams function params line n depth col) : IsInk b.name.toList := by
  unfold ofParams at h
  split at h
  · cases h
  · obtain ⟨p, hp, rfl⟩ := List.mem_map.mp h
    obtain ⟨raw, -, hraw⟩ := List.mem_filterMap.mp (List.mem_filter.mp hp).1
    unfold Source.absentable? at hraw
    dsimp only at hraw
    split at hraw
    · cases hraw
    · split at hraw
      · rename_i hplain
        rw [← Option.some_inj.mp hraw, String.toList_ofList]
        exact isInk_of_isPlainName hplain
      · cases hraw

theorem isInk_of_ofVariable {bs : List Binding} {b : Binding} (hm : IsInk (m.group 1))
    (h : k.ofVariable m n depth lines = .ok bs) (hb : b ∈ bs) : IsInk b.name.toList := by
  unfold ofVariable at h
  dsimp only at h
  split at h
  · cases h
    cases hb
  · split at h
    · cases h
    · split at h
      · split at h
        · cases h
        · cases h
          cases hb
        · cases h
          rw [List.mem_singleton.mp hb, String.toList_ofList]
          exact hm
      · cases h
        cases hb

theorem isInk_of_classify {code : Line} {bs : List Binding} {b : Binding}
    (h : k.classify code n depth lines = .ok bs) (hb : b ∈ bs) : IsInk b.name.toList := by
  unfold classify at h
  split at h
  · cases h
    cases hb
  · dsimp only at h
    split at h
    · cases hm : Declaration.variableInit.find? code with
      | none =>
        rw [hm] at h
        cases h
        cases hb
      | some m =>
        rw [hm] at h
        exact isInk_of_ofVariable (isInk_of_variableInit hm) h hb
    · cases h
      rcases List.mem_append.mp (mem_of_mem_dedupe hb) with hparams | hroute
      · rcases List.mem_append.mp hparams with hfunction | harrow
        · obtain ⟨m, -, hbm⟩ := List.mem_flatMap.mp hfunction
          split at hbm
          · cases hbm
          · exact isInk_of_ofParams hbm
        · obtain ⟨m, -, hbm⟩ := List.mem_flatMap.mp harrow
          exact isInk_of_ofParams hbm
      · obtain ⟨m, -, hbm⟩ := List.mem_flatMap.mp hroute
        exact isInk_of_ofParams hbm

/-! ### The classification of a line -/

theorem dedupe_map {f : Binding → Binding} (hf : ∀ b, (f b).name = b.name) (bs : List Binding) :
    dedupe (bs.map f) = (dedupe bs).map f := by
  have hkeep : ∀ (held : List Binding) (b : Binding),
      keepLatest (held.map f) (f b) = (keepLatest held b).map f := by
    intro held b
    unfold keepLatest
    simp only [List.any_map, Function.comp_def, hf, List.map_map]
    split
    · rw [List.map_map]
      refine List.map_congr_left fun h _ => ?_
      dsimp only [Function.comp_apply]
      split <;> rfl
    · rw [List.map_append, List.map_singleton]
  suffices hfold : ∀ held, (bs.map f).foldl keepLatest (held.map f) =
      (bs.foldl keepLatest held).map f from hfold []
  induction bs with
  | nil => exact fun held => rfl
  | cons b rest ih =>
    intro held
    rw [List.map_cons, List.foldl_cons, List.foldl_cons, hkeep, ih]

theorem outdent_originCol (u : List Char) {col : Nat} (h : col ≤ t.length) :
    min (((col + u.length : Nat) : Int) - u.length) t.length = col := by
  omega

theorem ofParams_pads (hu : IsPad u) (hw : IsPad w) (function params : List Char) {col : Nat}
    (hcol : col ≤ t.length) :
    (k.ofParams function params (u ++ t ++ w) n depth (col + u.length)).map (Binding.outdent u t) =
      k.ofParams function params t n depth col := by
  unfold ofParams
  rw [occursIn_pads Declaration.steady_listener hu hw]
  split
  · rfl
  · rw [List.map_map]
    refine List.map_congr_left fun p _ => ?_
    simp only [Function.comp_apply, Binding.outdent, outdent_originCol u hcol]

theorem isConventional_indent (hu : IsPad u) (t : List Char) :
    isConventional (u ++ t) = isConventional t := by
  have hcallback : Declaration.arrayCallback.startsInked = true ∧
      Declaration.arrayCallback.ignoresIndent = true := by decide +kernel
  rw [isConventional, isConventional, occursIn, occursIn, occursIn, occursIn,
    find?_indent hcallback.1 hcallback.2 hu,
    find?_indent Declaration.steady_listener.starts Declaration.steady_listener.ignores hu,
    Option.isSome_map, Option.isSome_map]

theorem functionName_pads (hu : IsPad u) (w : List Char) (hm : m.startCol ≤ t.length) :
    functionName (u ++ t ++ w) (m.between u w) = functionName t m := by
  have hname : Declaration.assignedName.startsInked = true ∧
      Declaration.assignedName.ignoresIndent = true := ⟨rejectsBlanks_isNameChar, rfl⟩
  rw [functionName, functionName, Match.group_between, Match.startCol_between, take_pads u w hm,
    find?_indent hname.1 hname.2 hu]
  split
  · cases Declaration.assignedName.find? (t.take m.startCol) with
    | none => rfl
    | some a => exact Match.group_between u [] a 1
  · rfl

theorem ofFunctions_pads (hu : IsPad u) (hw : IsPad w) {ms : List Match}
    (hms : ∀ m ∈ ms, m.startCol ≤ t.length ∧ m.stopCol ≤ t.length) :
    (k.ofFunctions (u ++ t ++ w) n depth (ms.map (Match.between u w))).map (Binding.outdent u t) =
      k.ofFunctions t n depth ms := by
  induction ms with
  | nil => rfl
  | cons m rest ih =>
    obtain ⟨⟨hstart, hstop⟩, hrest⟩ := List.forall_mem_cons.mp hms
    rw [List.map_cons, ofFunctions, ofFunctions, List.flatMap_cons, List.flatMap_cons,
      List.map_append]
    congr 1
    · rw [Match.startCol_between, take_pads u w hstart, isConventional_indent hu,
        functionName_pads hu w hstart, Match.group_between, Match.stopCol_between]
      split
      · rfl
      · exact ofParams_pads hu hw _ _ hstop
    · exact ih hrest

theorem flatMap_ofParams_pads (hu : IsPad u) (hw : IsPad w) (function params : Match → List Char)
    (hfunction : ∀ m, function (Match.between u w m) = function m)
    (hparams : ∀ m, params (Match.between u w m) = params m) {ms : List Match}
    (hms : ∀ m ∈ ms, m.stopCol ≤ t.length) :
    ((ms.map (Match.between u w)).flatMap fun m =>
        k.ofParams (function m) (params m) (u ++ t ++ w) n depth m.stopCol).map
          (Binding.outdent u t) =
      ms.flatMap fun m => k.ofParams (function m) (params m) t n depth m.stopCol := by
  induction ms with
  | nil => rfl
  | cons m rest ih =>
    obtain ⟨hstop, hrest⟩ := List.forall_mem_cons.mp hms
    rw [List.map_cons, List.flatMap_cons, List.flatMap_cons, List.map_append, ih hrest, hfunction,
      hparams, Match.stopCol_between, ofParams_pads hu hw _ _ hstop]

theorem stopCol_of_after {a : Pattern} (h : IsMatch a t m) (hafter : m.last.after = []) :
    m.stopCol = t.length := by
  have hlength := h.stopCol_add_after
  rwa [hafter, List.length_nil, Nat.add_zero] at hlength

/-- The variable that a line of code declares, if it declares one. -/
theorem declared_variable_pads (hu : IsPad u) (hw : IsPad w) (hlf : '\n' ∉ u ++ t ++ w) :
    (match Declaration.variableInit.find? (u ++ t ++ w) with
      | some m => k.ofVariable m n depth lines
      | none => .ok []).map (List.map (Binding.outdent u t)) =
      match Declaration.variableInit.find? t with
      | some m => k.ofVariable m n depth (lines.map trim)
      | none => .ok [] := by
  rcases Declaration.find?_variableInit_pads hu hw hlf with hrel | ⟨hnone, m', hm', hvalue⟩
  · cases hm : Declaration.variableInit.find? t with
    | none =>
      rw [hm] at hrel
      rw [eq_none_of_rel hrel]
      rfl
    | some m =>
      rw [hm] at hrel
      obtain ⟨m', hm', hsame⟩ := exists_of_rel hrel
      rw [hm']
      refine ofVariable_pads hsame ?_
      rw [stopCol_of_after (isMatch_of_find? hm') hsame.stop',
        stopCol_of_after (isMatch_of_find? hm) hsame.stop]
      simp only [List.length_append]
      omega
  · rw [hnone, hm']
    dsimp only
    rw [ofVariable_of_empty hvalue]
    rfl

/-- A line of code behind a margin declares what it declares alone. -/
theorem classify_pads (hu : IsPad u) (hw : IsPad w) (hlf : '\n' ∉ u ++ t ++ w) :
    (k.classify (u ++ t ++ w) n depth lines).map (List.map (Binding.outdent u t)) =
      k.classify t n depth (lines.map trim) := by
  have hfunctions := findAll_pads Declaration.steady_function (by decide +kernel) hu hw t
  have harrows : [Declaration.arrow, Declaration.arrowSingle].filterMap (·.find? (u ++ t ++ w)) =
      ([Declaration.arrow, Declaration.arrowSingle].filterMap (·.find? t)).map
        (Match.between u w) := by
    rw [List.map_filterMap]
    simp only [List.filterMap_cons, List.filterMap_nil, find?_pads Declaration.steady_arrow hu hw,
      find?_pads Declaration.steady_arrowSingle hu hw]
  have hroute : (Declaration.route.find? (u ++ t ++ w)).toList =
      (Declaration.route.find? t).toList.map (Match.between u w) := by
    rw [find?_pads Declaration.steady_route hu hw]
    cases Declaration.route.find? t <;> rfl
  unfold classify
  rw [occursIn_pads Declaration.steady_forEachLoop hu hw]
  split
  · rfl
  · dsimp only
    simp only [hfunctions, harrows, hroute, List.isEmpty_map]
    split
    · exact declared_variable_pads hu hw hlf
    · have hfound : ∀ m ∈ Declaration.function.findAll t, m.startCol ≤ t.length ∧
          m.stopCol ≤ t.length :=
        fun m hm =>
          ⟨(isMatch_of_mem_findAll hm).startCol_le, (isMatch_of_mem_findAll hm).stopCol_le⟩
      have hfoundArrow : ∀ m ∈ [Declaration.arrow, Declaration.arrowSingle].filterMap (·.find? t),
          m.stopCol ≤ t.length := by
        intro m hm
        obtain ⟨a, -, hm⟩ := List.mem_filterMap.mp hm
        exact (isMatch_of_find? hm).stopCol_le
      have hfoundRoute : ∀ m ∈ (Declaration.route.find? t).toList, m.stopCol ≤ t.length :=
        fun m hm => (isMatch_of_find? (Option.mem_toList.mp hm)).stopCol_le
      rw [Except.map, ← dedupe_map (f := Binding.outdent u t) (fun _ => rfl), List.map_append,
        List.map_append, ofFunctions_pads hu hw hfound,
        flatMap_ofParams_pads hu hw (·.group 1) (·.group 2) (Match.group_between u w · 1)
          (Match.group_between u w · 2) hfoundArrow,
        flatMap_ofParams_pads hu hw (fun _ => []) (·.group 1) (fun _ => rfl)
          (Match.group_between u w · 1) hfoundRoute]

end Classifier

end NullAccess
