import NullAccess.Proofs.Analysis.Prefix

/-!
# Which binding a name refers to

The walk takes a binding up on the line that declares it and never lets go of one.  So what it has
taken up behind a line are the bindings declared so far, by line and then by their order in the list
(`taken`), and a look-up takes the last of them at the deepest depth that has one.  That is one of
all bindings, told without the walk: none in reach hides it, and it hides those in reach that come
later in the list (`Nearest`, `lookup_scopeAfter_iff`).

A report is therefore read off the bindings, the zones and the single lines
(`findings_follow_nearest_binding`).
-/

namespace NullAccess

theorem Text.holds_of_isSuffix {part t u : List Char} (h : part <+: t) (hu : t <:+ u) :
    holds part u = true :=
  holds_iff_isInfix.mpr (h.isInfix.trans hu.isInfix)

/-! ## Bindings in reach -/

namespace Binding

variable {name : String} {n : Int} {depth : Nat} {bindings : List Binding} {b b' : Binding}

/-- On line `n` and at a depth a name may refer to the binding: it is declared by then, and it is
not deeper. -/
structure InReach (name : String) (n : Int) (depth : Nat) (b : Binding) : Prop where
  name_eq : b.name = name
  declared : 1 ≤ b.originLine ∧ b.originLine ≤ n
  visible : 0 ≤ b.depth ∧ b.depth ≤ depth

/-- A deeper binding hides one further out, and at one depth a later line hides an earlier one. -/
def Hides (b b' : Binding) : Prop :=
  b'.depth < b.depth ∨ b'.depth = b.depth ∧ b'.originLine < b.originLine

/-- The binding that a name refers to: of those in reach none hides it, and it hides those that come
behind it in the list. -/
def Nearest (bindings : List Binding) (name : String) (n : Int) (depth : Nat)
    (b : Binding) : Prop :=
  ∃ front back, bindings = front ++ b :: back ∧ InReach name n depth b ∧
    (∀ b' ∈ front, InReach name n depth b' → ¬ Hides b' b) ∧
    ∀ b' ∈ back, InReach name n depth b' → Hides b b'

theorem Nearest.mem (h : Nearest bindings name n depth b) : b ∈ bindings := by
  obtain ⟨front, back, rfl, -⟩ := h
  simp

theorem Nearest.inReach (h : Nearest bindings name n depth b) : InReach name n depth b := by
  obtain ⟨front, back, -, hreach, -⟩ := h
  exact hreach

theorem Nearest.unique (h : Nearest bindings name n depth b)
    (h' : Nearest bindings name n depth b') :
    b = b' := by
  obtain ⟨front, back, rfl, hreach, hfront, hback⟩ := h
  obtain ⟨front', back', heq, hreach', hfront', hback'⟩ := h'
  obtain ⟨-, rfl, -⟩ | ⟨u, rfl, rfl⟩ | ⟨u, rfl, rfl⟩ := split_cases heq
  · rfl
  · exact absurd (hback b' (by simp) hreach') (hfront' b (by simp) hreach)
  · exact absurd (hback' b (by simp) hreach) (hfront b' (by simp) hreach')

end Binding

open Binding

/-! ## What a walk has taken up -/

namespace Scope

variable {s : Scope} {name : String} {depth : Nat} {b : Binding}

/-- A look-up finds the deepest binding that a depth has. -/
theorem lookup_eq_some (h : s.lookup name depth = some b) :
    (0 ≤ b.depth ∧ b.depth ≤ depth) ∧ s.at? name b.depth = some b ∧
      ∀ d : Nat, b.depth < d → d ≤ depth → s.at? name d = none := by
  have hdepth : ∀ d : Int, s.at? name d = some b → b.depth = d := by
    intro d hd
    have hfound := List.find?_some hd
    rw [Bool.and_eq_true, beq_iff_eq, beq_iff_eq] at hfound
    exact hfound.2
  induction depth with
  | zero =>
    have hzero : b.depth = 0 := hdepth 0 h
    exact ⟨by omega, by rw [hzero]; exact h, fun d hlt hle => by omega⟩
  | succ k ih =>
    rcases Option.or_eq_some_iff.mp h with hhere | ⟨hnone, hout⟩
    · have hk : b.depth = (k + 1 : Nat) := hdepth _ hhere
      exact ⟨by omega, by rw [hk]; exact hhere, fun d hlt hle => by omega⟩
    · obtain ⟨hbounds, hat, hdeeper⟩ := ih hout
      refine ⟨by omega, hat, fun d hlt hle => ?_⟩
      rcases Nat.lt_or_ge k d with hlast | hfirst
      · rw [show d = k + 1 by omega]
        exact hnone
      · exact hdeeper d hlt hfirst

theorem lookup_eq_none (h : s.lookup name depth = none) (d : Nat) (hd : d ≤ depth) :
    s.at? name d = none := by
  induction depth with
  | zero =>
    rw [show d = 0 by omega]
    exact h
  | succ k ih =>
    obtain ⟨hhere, hout⟩ := Option.or_eq_none_iff.mp h
    rcases Nat.lt_or_ge k d with hlast | hfirst
    · rw [show d = k + 1 by omega]
      exact hhere
    · exact ih hout hfirst

end Scope

namespace Finding

variable {file : String} {bindings : List Binding} {subjects : List Subject} {scope : Scope}
  {n : Int} {k : Nat} {lines : List Line} {f : Finding} {name : String} {b : Binding}
  {p : Binding → Bool}

/-- The bindings that `k` lines from line `n` on declare, in the order in which a walk takes them
up. -/
def taken (bindings : List Binding) (n : Int) : Nat → List Binding
  | 0 => []
  | k + 1 => bindings.filter (·.originLine == n) ++ taken bindings (n + 1) k

theorem mem_taken : b ∈ taken bindings n k ↔
    b ∈ bindings ∧ n ≤ b.originLine ∧ b.originLine < n + k := by
  induction k generalizing n with
  | zero =>
    simp only [taken, List.not_mem_nil, false_iff]
    rintro ⟨-, hle, hlt⟩
    omega
  | succ k ih =>
    rw [taken, List.mem_append, List.mem_filter, beq_iff_eq, ih]
    constructor
    · rintro (⟨hmem, heq⟩ | ⟨hmem, hle, hlt⟩)
      · exact ⟨hmem, by omega, by omega⟩
      · exact ⟨hmem, by omega, by omega⟩
    · rintro ⟨hmem, hle, hlt⟩
      by_cases heq : b.originLine = n
      · exact .inl ⟨hmem, heq⟩
      · exact .inr ⟨hmem, by omega, by omega⟩

/-- The last binding of a kind that was taken up: of those of the kind, none is declared on a later
line, and those behind it in the list are declared on earlier ones. -/
theorem split_of_find?_taken (h : (taken bindings n k).reverse.find? p = some b) :
    ∃ front back, bindings = front ++ b :: back ∧ p b = true ∧
      (n ≤ b.originLine ∧ b.originLine < n + k) ∧
      (∀ b' ∈ front, p b' = true → b'.originLine < n + k → b'.originLine ≤ b.originLine) ∧
      ∀ b' ∈ back, p b' = true → b'.originLine < n + k → b'.originLine < b.originLine := by
  induction k generalizing n with
  | zero => cases h
  | succ k ih =>
    rw [taken, List.reverse_append, List.find?_append] at h
    have hcount : n + ((k + 1 : Nat) : Int) = n + 1 + k := by omega
    rw [hcount]
    rcases Option.or_eq_some_iff.mp h with hlater | ⟨hnone, hhere⟩
    · obtain ⟨front, back, hsplit, hp, hlines, hfront, hback⟩ := ih hlater
      exact ⟨front, back, hsplit, hp, by omega, hfront, hback⟩
    · -- No later line declares one of the kind, so it is the last of its line.
      have hline : ∀ b' ∈ bindings, p b' = true → b'.originLine < n + 1 + k →
          b'.originLine ≤ n := by
        intro b' hmem hp hlt
        by_contra hgt
        have htaken : b' ∈ (taken bindings (n + 1) k).reverse :=
          List.mem_reverse.mpr (mem_taken.mpr ⟨hmem, by omega, hlt⟩)
        exact List.find?_eq_none.mp hnone b' htaken hp
      rw [← List.filter_reverse, List.find?_filter] at hhere
      obtain ⟨hb, behind, before, hsplit, hbehind⟩ := List.find?_eq_some_iff_append.mp hhere
      rw [Bool.decide_and, Bool.and_eq_true, decide_eq_true_eq, decide_eq_true_eq, beq_iff_eq] at hb
      have hlist : bindings = before.reverse ++ b :: behind.reverse := by
        have hreverse := congrArg List.reverse hsplit
        simpa using hreverse
      refine ⟨before.reverse, behind.reverse, hlist, hb.2, by omega, fun b' hb' hp hlt => ?_,
        fun b' hb' hp hlt => ?_⟩
      · have hle := hline b' (by rw [hlist]; exact List.mem_append_left _ hb') hp hlt
        omega
      · have hle := hline b' (by rw [hlist]; simp [List.mem_reverse.mp hb']) hp hlt
        have hnot := hbehind b' (List.mem_reverse.mp hb')
        have hne : b'.originLine ≠ n := by
          intro heq
          simp [heq, hp] at hnot
        omega

/-- The scope behind the lines from line `n` on, with the bindings that they declare. -/
def scopeAfter (bindings : List Binding) (scope : Scope) (n : Int) : List Line → Scope
  | [] => scope
  | raw :: rest =>
    scopeAfter bindings
      ((bindings.filter (·.originLine == n)).foldl Scope.add (scope.readLine raw n))
      (n + 1) rest

/-- Bindings do not move braces, and braces do not touch bindings. -/
theorem scopeAfter_eq (bindings : List Binding) (scope : Scope) (n : Int) (lines : List Line) :
    scopeAfter bindings scope n lines =
      { scope.readLines n lines with
        bindings := (taken bindings n lines.length).reverse ++ scope.bindings } := by
  induction lines generalizing scope n with
  | nil => rfl
  | cons raw rest ih =>
    rw [scopeAfter, ih, Scope.foldl_add_eq, Scope.readLines_with, Scope.bindings_readLine,
      Scope.readLines, List.length_cons, taken, List.reverse_append, List.append_assoc]

theorem at?_scopeAfter (bindings : List Binding) (lines : List Line) (name : String) (depth : Int) :
    (scopeAfter bindings {} 1 lines).at? name depth =
      (taken bindings 1 lines.length).reverse.find? fun b =>
        b.name == name && b.depth == depth := by
  rw [scopeAfter_eq, Scope.at?, List.append_nil]

/-- A binding in reach has been taken up, so that there is one at its depth. -/
theorem at?_ne_none_of_inReach (hmem : b ∈ bindings) (hreach : InReach name lines.length k b) :
    (scopeAfter bindings {} 1 lines).at? name b.depth.toNat ≠ none := by
  obtain ⟨hname, hdeclared, hvisible⟩ := hreach
  intro hnone
  rw [show ((b.depth.toNat : Nat) : Int) = b.depth by omega, at?_scopeAfter] at hnone
  have htaken : b ∈ (taken bindings 1 lines.length).reverse :=
    List.mem_reverse.mpr (mem_taken.mpr ⟨hmem, by omega, by omega⟩)
  have hfound := List.find?_eq_none.mp hnone b htaken
  simp [hname] at hfound

theorem nearest_of_lookup (h : (scopeAfter bindings {} 1 lines).lookup name k = some b) :
    Nearest bindings name lines.length k b := by
  obtain ⟨hvisible, hat, hdeeper⟩ := Scope.lookup_eq_some h
  rw [at?_scopeAfter] at hat
  obtain ⟨front, back, hsplit, hb, hlines, hfront, hback⟩ := split_of_find?_taken hat
  rw [Bool.and_eq_true, beq_iff_eq, beq_iff_eq] at hb
  -- What is deeper and in reach would have been found before.
  have hdepth : ∀ b' ∈ bindings, InReach name lines.length k b' → b'.depth ≤ b.depth := by
    intro b' hmem hreach
    have hvisible' := hreach.visible
    by_contra hgt
    exact at?_ne_none_of_inReach hmem hreach (hdeeper b'.depth.toNat (by omega) (by omega))
  have hkind : ∀ b', InReach name lines.length k b' → b'.depth = b.depth →
      (b'.name == name && b'.depth == b.depth) = true := by
    intro b' hreach heq
    simp [hreach.name_eq, heq]
  refine ⟨front, back, hsplit, ⟨hb.1, by omega, hvisible⟩, fun b' hmem hreach => ?_,
    fun b' hmem hreach => ?_⟩
  · have hle := hdepth b' (by simp [hsplit, hmem]) hreach
    have hdeclared := hreach.declared
    rintro (hlt | ⟨heq, hlt⟩)
    · omega
    · have hline := hfront b' hmem (hkind b' hreach heq.symm) (by omega)
      omega
  · have hle := hdepth b' (by simp [hsplit, hmem]) hreach
    have hdeclared := hreach.declared
    by_cases heq : b'.depth = b.depth
    · exact .inr ⟨heq, hback b' hmem (hkind b' hreach heq) (by omega)⟩
    · exact .inl (by omega)

/-- Of the bindings that are declared so far, a look-up finds the nearest one. -/
theorem lookup_scopeAfter_iff :
    (scopeAfter bindings {} 1 lines).lookup name k = some b ↔
      Nearest bindings name lines.length k b := by
  refine ⟨nearest_of_lookup, fun h => ?_⟩
  cases hlookup : (scopeAfter bindings {} 1 lines).lookup name k with
  | some c => rw [(nearest_of_lookup hlookup).unique h]
  | none =>
    have hvisible := h.inReach.visible
    have hnone := Scope.lookup_eq_none hlookup b.depth.toNat (by omega)
    exact absurd hnone (at?_ne_none_of_inReach h.mem h.inReach)

/-! ## The walk, line by line -/

theorem mem_walk_iff :
    f ∈ walk file bindings subjects scope n lines ↔
      ∃ (i : Nat) (raw : Line), lines[i]? = some raw ∧ ∃ s ∈ subjects,
        s.finding? file (n + i) raw (scopeAfter bindings scope n (lines.take (i + 1))) =
          some f := by
  induction lines generalizing scope n with
  | nil => simp [walk]
  | cons raw rest ih =>
    rw [walk, List.mem_append, List.mem_filterMap, ih]
    constructor
    · rintro (hfirst | ⟨i, raw', hraw, hlater⟩)
      · exact ⟨0, raw, rfl, by simpa [scopeAfter] using hfirst⟩
      · refine ⟨i + 1, raw', hraw, ?_⟩
        rw [show n + ((i + 1 : Nat) : Int) = n + 1 + i by omega]
        exact hlater
    · rintro ⟨i, raw', hraw, hfound⟩
      cases i with
      | zero =>
        cases hraw
        exact .inl (by simpa [scopeAfter] using hfound)
      | succ i =>
        rw [show n + ((i + 1 : Nat) : Int) = n + 1 + i by omega] at hfound
        exact .inr ⟨i, raw', hraw, hfound⟩

/-- The column from which line `n` is read for a binding: behind the declaration on its own line. -/
def readFrom (b : Binding) (n : Int) : Nat := if b.originLine = n then b.originCol.toNat else 0

/-- Read for a binding, line `n` accesses a name, and neither the line itself nor a zone that begins
at the binding or behind it guards the access. -/
structure Unguarded (lines : List Line) (extents : Extents) (n : Int) (name : String) (raw : Line)
    (b : Binding) (kind : AccessKind) (col : Int) : Prop where
  code : Source.isCommentLine raw = false
  unguarded : Access.isGuarded name.toList ((Source.code raw).drop (readFrom b n)) = false
  access :
    ∃ c : Nat, Access.first? name.toList ((Source.code raw).drop (readFrom b n)) = some (kind, c) ∧
    col = (c + readFrom b n : Nat)
  uncovered : ∀ z ∈ Guard.findZones lines name extents, b.originLine ≤ z.startLine →
    z.covers n col = false

/-- On line `n` of a file a name refers to a binding, and is accessed unguarded. -/
structure Exposed (lines : List Line) (bindings : List Binding) (extents : Extents) (n : Int)
    (name : String) (raw : Line) (b : Binding) (kind : AccessKind) (col : Int) : Prop where
  line : 1 ≤ n ∧ lines[(n - 1).toNat]? = some raw
  nearest : Nearest bindings name n (Scope.readLines {} 1 (lines.take n.toNat)).depth b
  unguarded : Unguarded lines extents n name raw b kind col

theorem offset_eq_readFrom (hcol : 0 ≤ b.originCol) (n : Int) :
    (if b.originLine = n then b.originCol else 0) = (readFrom b n : Int) := by
  unfold readFrom
  split
  · omega
  · rfl

theorem findingFor_eq_some_iff {extents : Extents} {raw : Line} (hcol : 0 ≤ b.originCol)
    (hcode : Source.isCommentLine raw = false) (file : String) :
    Subject.findingFor ⟨name, Guard.findZones lines name extents⟩ file n raw b = some f ↔
      ∃ kind col, Unguarded lines extents n name raw b kind col ∧
        f = report ⟨name, Guard.findZones lines name extents⟩ file n raw b kind col := by
  have hsafe : ∀ col, Guard.isSafe (Guard.findZones lines name extents) b.originLine n col = false ↔
      ∀ z ∈ Guard.findZones lines name extents, b.originLine ≤ z.startLine →
        z.covers n col = false := by
    intro col
    simp [Guard.isSafe]
  rw [findingFor_of_offset _ file raw (offset_eq_readFrom hcol n)]
  dsimp only
  constructor
  · intro h
    split at h
    · cases h
    · rename_i hguard
      obtain ⟨⟨kind, c⟩, hfirst, hreport⟩ := Option.bind_eq_some_iff.mp h
      split at hreport
      · cases hreport
      · rename_i hzones
        cases hreport
        exact ⟨kind, _, ⟨hcode, by simpa using hguard, ⟨c, hfirst, rfl⟩,
          (hsafe _).mp (by simpa using hzones)⟩, rfl⟩
  · rintro ⟨kind, col, ⟨-, hguard, ⟨c, hfirst, rfl⟩, hzones⟩, rfl⟩
    have hnone := (hsafe _).mpr hzones
    rw [if_neg (Bool.eq_false_iff.mp hguard), hfirst, Option.bind_some,
      if_neg (Bool.eq_false_iff.mp hnone)]

/-- A name that is read on a line stands on it, so the look for the name beforehand loses
nothing. -/
theorem Unguarded.holds {extents : Extents} {raw : Line} {kind : AccessKind} {col : Int}
    (h : Unguarded lines extents n name raw b kind col) :
    Text.holds name.toList (Source.code raw) = true := by
  obtain ⟨c, hfirst, -⟩ := h.access
  obtain ⟨sep, r, hdrop, -⟩ := (Access.refersAt_of_first? hfirst).here
  rw [List.drop_drop] at hdrop
  exact Text.holds_of_isSuffix ⟨sep :: r, hdrop.symm⟩ (List.drop_suffix _ _)

/-- The report, read off the lines one by one. -/
theorem mem_generate_iff {extents : Extents}
    (hcols : ∀ b ∈ bindings, 0 ≤ b.originCol) (file : String) :
    f ∈ generate file lines bindings extents ↔
      ∃ n name raw b kind col, Exposed lines bindings extents n name raw b kind col ∧
        f = report ⟨name, Guard.findZones lines name extents⟩ file n raw b kind col := by
  have hlookup : ∀ (i : Nat) (raw : Line), lines[i]? = some raw → ∀ name b,
      (scopeAfter bindings {} 1 (lines.take (i + 1))).lookup name
          (scopeAfter bindings {} 1 (lines.take (i + 1))).depth = some b ↔
        Nearest bindings name (1 + i) (Scope.readLines {} 1 (lines.take (i + 1))).depth b := by
    intro i raw hraw name b
    obtain ⟨hi, -⟩ := List.getElem?_eq_some_iff.mp hraw
    have hcount : ((lines.take (i + 1)).length : Int) = 1 + i := by
      rw [List.length_take]
      omega
    rw [lookup_scopeAfter_iff, hcount, scopeAfter_eq]
    rfl
  rw [generate, List.mem_mergeSort, mem_walk_iff]
  constructor
  · rintro ⟨i, raw, hraw, s, hs, hfinding⟩
    obtain ⟨name, -, rfl⟩ := List.mem_map.mp hs
    unfold Subject.finding? at hfinding
    split at hfinding
    · cases hfinding
    · rename_i hskip
      rw [Bool.or_eq_true, not_or, Bool.not_eq_true] at hskip
      obtain ⟨b, hb, hfor⟩ := Option.bind_eq_some_iff.mp hfinding
      have hnearest := (hlookup i raw hraw name b).mp hb
      obtain ⟨kind, col, hunguarded, rfl⟩ :=
        (findingFor_eq_some_iff (hcols b hnearest.mem) hskip.1 file).mp hfor
      refine ⟨1 + i, name, raw, b, kind, col, ⟨⟨by omega, ?_⟩, ?_, hunguarded⟩, rfl⟩
      · rwa [show (1 + (i : Int) - 1).toNat = i by omega]
      · rwa [show (1 + (i : Int)).toNat = i + 1 by omega]
  · rintro ⟨n, name, raw, b, kind, col, ⟨⟨hn, hraw⟩, hnearest, hunguarded⟩, rfl⟩
    obtain ⟨i, rfl⟩ : ∃ i : Nat, n = 1 + i := ⟨(n - 1).toNat, by omega⟩
    rw [show (1 + (i : Int) - 1).toNat = i by omega] at hraw
    rw [show (1 + (i : Int)).toNat = i + 1 by omega] at hnearest
    have hname : name ∈ (bindings.map (·.name)).eraseDups :=
      (eraseDups_spec _).2 name |>.mpr
        (List.mem_map.mpr ⟨b, hnearest.mem, hnearest.inReach.name_eq⟩)
    have hfor := (findingFor_eq_some_iff (hcols b hnearest.mem) hunguarded.code file).mpr
      ⟨kind, col, hunguarded, rfl⟩
    refine ⟨i, raw, hraw, _, List.mem_map.mpr ⟨name, hname, rfl⟩, ?_⟩
    unfold Subject.finding?
    rw [hunguarded.code, hunguarded.holds, (hlookup i raw hraw name b).mpr hnearest]
    exact hfor

/-- A name is reported on a line iff it is exposed there, and what is reported is the access and the
binding that the name refers to. -/
theorem findings_follow_nearest_binding (hcols : ∀ b ∈ bindings, 0 ≤ b.originCol) (file : String)
    (lines : List Line) (extents : Extents) :
    (∀ n name, (∃ f ∈ generate file lines bindings extents, f.line = n ∧ f.bindingName = name) ↔
      ∃ raw b kind col, Exposed lines bindings extents n name raw b kind col) ∧
    ∀ f ∈ generate file lines bindings extents, ∀ raw b kind col,
      Exposed lines bindings extents f.line f.bindingName raw b kind col →
        f.accessKind = kind ∧ f.col = col ∧ f.bindingKind = b.kind ∧ f.bindingLine = b.originLine ∧
          f.reason = b.reason := by
  refine ⟨fun n name => ⟨?_, ?_⟩, fun f hf raw b kind col hexposed => ?_⟩
  · rintro ⟨f, hf, rfl, rfl⟩
    obtain ⟨n, name, raw, b, kind, col, hexposed, rfl⟩ := (mem_generate_iff hcols file).mp hf
    exact ⟨raw, b, kind, col, hexposed⟩
  · rintro ⟨raw, b, kind, col, hexposed⟩
    have hf := (mem_generate_iff hcols file).mpr ⟨n, name, raw, b, kind, col, hexposed, rfl⟩
    exact ⟨_, hf, rfl, rfl⟩
  · obtain ⟨n, name, raw', b', kind', col', hexposed', rfl⟩ := (mem_generate_iff hcols file).mp hf
    obtain rfl : raw' = raw := Option.some_inj.mp (hexposed'.line.2.symm.trans hexposed.line.2)
    obtain rfl : b' = b := hexposed'.nearest.unique hexposed.nearest
    obtain ⟨c', hfirst', rfl⟩ := hexposed'.unguarded.access
    obtain ⟨c, hfirst, rfl⟩ := hexposed.unguarded.access
    obtain ⟨rfl, rfl⟩ : kind' = kind ∧ c' = c := by simpa using hfirst'.symm.trans hfirst
    exact ⟨rfl, rfl, rfl, rfl, rfl⟩

/-- A block in a function; both declare the name that is read in the block and behind it. -/
def shadowLines : List Line :=
  ["function f(u) \x7b".toList, "if (x) \x7b let u = g();".toList, "u.a;".toList, "\x7d".toList,
    "u.b;".toList, "\x7d".toList]

def innerBinding : Binding :=
  { name := "u", depth := 2, originLine := 2, originCol := 20, kind := .assignment }

def outerBinding : Binding :=
  { name := "u", depth := 1, originLine := 1, originCol := 15, kind := .parameter }

theorem findings_follow_nearest_binding_sample :
    (∀ b ∈ [innerBinding, outerBinding], 0 ≤ b.originCol) ∧
      Exposed shadowLines [innerBinding, outerBinding] (.ofLines shadowLines) 3 "u" "u.a;".toList
        innerBinding .memberAccess 0 ∧
      ∃ f ∈ generate "a.js" shadowLines [innerBinding, outerBinding] (.ofLines shadowLines),
        f.line = 3 ∧ f.bindingName = "u" ∧ f.bindingKind = .assignment ∧ f.bindingLine = 2 := by
  have hcols : ∀ b ∈ [innerBinding, outerBinding], 0 ≤ b.originCol := by decide
  have hnearest : Nearest [innerBinding, outerBinding] "u" 3 2 innerBinding := by
    refine ⟨[], [outerBinding], rfl, ⟨rfl, by decide, by decide⟩, List.forall_mem_nil _, ?_⟩
    intro b' hb' _
    rw [List.mem_singleton.mp hb']
    exact .inl (by decide)
  have hunguarded : Unguarded shadowLines (.ofLines shadowLines) 3 "u" "u.a;".toList innerBinding
      .memberAccess 0 :=
    ⟨by decide, by decide +kernel, ⟨0, by decide +kernel, by decide⟩, by decide +kernel⟩
  have hexposed : Exposed shadowLines [innerBinding, outerBinding] (.ofLines shadowLines) 3 "u"
      "u.a;".toList innerBinding .memberAccess 0 :=
    ⟨⟨by decide, rfl⟩, hnearest, hunguarded⟩
  obtain ⟨hreported, hfields⟩ :=
    findings_follow_nearest_binding hcols "a.js" shadowLines (.ofLines shadowLines)
  obtain ⟨f, hf, hn, hname⟩ := (hreported 3 "u").mpr ⟨_, _, _, _, hexposed⟩
  have hsame : Exposed shadowLines [innerBinding, outerBinding] (.ofLines shadowLines) f.line
      f.bindingName "u.a;".toList innerBinding .memberAccess 0 := by
    rw [hn, hname]
    exact hexposed
  obtain ⟨-, -, hkind, horigin, -⟩ := hfields f hf _ _ _ _ hsame
  exact ⟨hcols, hexposed, f, hf, hn, hname, hkind, horigin⟩

end Finding

end NullAccess
