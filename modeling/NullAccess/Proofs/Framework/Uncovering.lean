import NullAccess.Proofs.Analysis.Shadowing
import NullAccess.Proofs.Framework.Exemption

/-!
# What an exemption uncovers

An exempted parameter is no longer a binding, so a name that referred to it may come to refer to
another one, further out or further up.  Most often the line is reported for that one too: where the
exempted parameter is declared above the line, and not above the binding in its place, every guard
that concerns the parameter concerns that binding (`Unguarded.of_later`).  Otherwise the line may be
reported with the exemption and not without it, because it was read for the parameter, and only
behind its declaration or with more guards (`exempting_only_uncovers`).
-/

namespace NullAccess

open Binding

/-! ## The bindings of a file -/

namespace Declarations

variable {k : Classifier} {all lines : List Line} {raw : Line} {d d' : Declarations} {n : Int}
  {b c : Binding}

theorem mem_declared_of_readLine (h : d.readLine k all raw n = .ok d') :
    b ∈ d'.declared ↔ b ∈ d.declared ∨ Source.isCommentLine raw = false ∧
      k.Yields (Source.code raw) n (d.scope.readLine raw n).depth all b := by
  unfold readLine at h
  cases hcomment : Source.isCommentLine raw with
  | true =>
    rw [hcomment, if_pos rfl] at h
    cases h
    simp
  | false =>
    rw [hcomment, if_neg Bool.false_ne_true] at h
    cases hfound : k.classify (Source.code raw) n (d.scope.readLine raw n).depth all with
    | error e =>
      rw [hfound] at h
      cases h
    | ok found =>
      rw [hfound] at h
      cases h
      simp [Classifier.Yields, hfound]

theorem mem_declared_of_readLines (h : readLines k all d n lines = .ok d') :
    b ∈ d'.declared ↔ b ∈ d.declared ∨
      ∃ (i : Nat) (raw : Line), lines[i]? = some raw ∧ Source.isCommentLine raw = false ∧
        k.Yields (Source.code raw) (n + i)
          (d.scope.readLines n (lines.take (i + 1))).depth all b := by
  induction lines generalizing d n with
  | nil =>
    cases h
    simp
  | cons raw rest ih =>
    obtain ⟨d₁, hfirst, hrest⟩ := readLines_cons_eq_ok h
    obtain ⟨found, -, hscope, -⟩ := readLine_eq_ok hfirst
    -- Declaring moves no depth, so the depths are those of the braces alone.
    have hdepth : ∀ m ls, (d₁.scope.readLines m ls).depth =
        ((d.scope.readLine raw n).readLines m ls).depth := by
      intro m ls
      rw [hscope, Scope.foldl_add_eq, Scope.readLines_with]
      rfl
    rw [ih hrest, mem_declared_of_readLine hfirst, or_assoc]
    refine or_congr_right ⟨?_, ?_⟩
    · rintro (⟨hcode, hyields⟩ | ⟨i, raw', hraw, hcode, hyields⟩)
      · exact ⟨0, raw, rfl, hcode, by simpa [Scope.readLines] using hyields⟩
      · refine ⟨i + 1, raw', hraw, hcode, ?_⟩
        rw [show n + ((i + 1 : Nat) : Int) = n + 1 + i by omega,
          List.take_succ_cons, Scope.readLines, ← hdepth]
        exact hyields
    · rintro ⟨i, raw', hraw, hcode, hyields⟩
      cases i with
      | zero =>
        cases hraw
        exact .inl ⟨hcode, by simpa [Scope.readLines] using hyields⟩
      | succ i =>
        rw [show n + ((i + 1 : Nat) : Int) = n + 1 + i by omega,
          List.take_succ_cons, Scope.readLines, ← hdepth] at hyields
        exact .inr ⟨i, raw', hraw, hcode, hyields⟩

/-- The bindings of a file are those of its lines. -/
theorem mem_declared_iff (h : ofLines k lines = .ok d) :
    b ∈ d.declared ↔
      ∃ (i : Nat) (raw : Line), lines[i]? = some raw ∧ Source.isCommentLine raw = false ∧
        k.Yields (Source.code raw) (1 + i)
          (Scope.readLines {} 1 (lines.take (i + 1))).depth lines b := by
  rw [mem_declared_of_readLines h]
  simp

/-- A file has one binding of a name on a line at most. -/
theorem eq_of_declared (h : ofLines k lines = .ok d) (hb : b ∈ d.declared) (hc : c ∈ d.declared)
    (hname : b.name = c.name) (hline : b.originLine = c.originLine) : b = c := by
  obtain ⟨i, raw, hraw, -, hyields⟩ := (mem_declared_iff h).mp hb
  obtain ⟨j, raw', hraw', -, hyields'⟩ := (mem_declared_iff h).mp hc
  obtain rfl : i = j := by
    have := hyields.place.1
    have := hyields'.place.1
    omega
  obtain rfl : raw = raw' := Option.some_inj.mp (hraw.symm.trans hraw')
  exact hyields.unique hyields' hname

end Declarations

/-- A binding is a parameter of a function that follows one of the signatures. -/
def Binding.Follows (signatures : List (List String)) (lines : List Line) (b : Binding) : Prop :=
  ∃ raw, lines[(b.originLine - 1).toNat]? = some raw ∧
    ∃ f ∈ Classifier.functionsOn (Source.code raw), Classifier.IsParam f b ∧
      Source.signature f.params ∈ signatures

namespace Classifier.Widens

variable {k k' : Classifier} {lines : List Line} {d d' : Declarations}
  {b b' : Binding} {name : String} {n : Int}

theorem declared_or_follows (hwidens : Widens k k') (hd : Declarations.ofLines k lines = .ok d)
    (hd' : Declarations.ofLines k' lines = .ok d') (hb : b ∈ d.declared) :
    b ∈ d'.declared ∨ b.Follows k'.signatures lines := by
  obtain ⟨i, raw, hraw, hcode, hyields⟩ := (Declarations.mem_declared_iff hd).mp hb
  rcases hwidens.yields_or_exempt hyields with hkept | ⟨f, hf, hparam, hexempt⟩
  · exact .inl ((Declarations.mem_declared_iff hd').mpr ⟨i, raw, hraw, hcode, hkept⟩)
  · refine .inr ⟨raw, ?_, f, hf, hparam, isExempt_iff.mp hexempt⟩
    rwa [hyields.place.1, show (1 + (i : Int) - 1).toNat = i by omega]

/-- Where a binding is with more signatures, one of its name is with fewer. -/
theorem exists_declared (hwidens : Widens k k') (hd : Declarations.ofLines k lines = .ok d)
    (hd' : Declarations.ofLines k' lines = .ok d') (hb' : b' ∈ d'.declared) :
    ∃ b ∈ d.declared, b.name = b'.name ∧ b.originLine = b'.originLine ∧ b.depth = b'.depth := by
  obtain ⟨i, raw, hraw, hcode, hyields'⟩ := (Declarations.mem_declared_iff hd').mp hb'
  obtain ⟨b, hyields, hname⟩ := hwidens.yields_name hyields'
  refine ⟨b, (Declarations.mem_declared_iff hd).mpr ⟨i, raw, hraw, hcode, hyields⟩, hname, ?_, ?_⟩
  · rw [hyields.place.1, hyields'.place.1]
  · rw [hyields.place.2, hyields'.place.2]

end Classifier.Widens

/-! ## The binding in the place of an exempted one -/

namespace Binding

variable {bindings : List Binding} {name : String} {n : Int} {depth : Nat} {b b' c : Binding}

theorem Hides.not_symm (h : Hides b c) : ¬ Hides c b := by
  rintro (hdeeper | ⟨hsame, hlater⟩)
  · rcases h with h | ⟨h, -⟩ <;> omega
  · rcases h with h | ⟨-, h⟩ <;> omega

theorem Nearest.not_hidden (h : Nearest bindings name n depth b) (hc : c ∈ bindings)
    (hreach : InReach name n depth c) : ¬ Hides c b := by
  obtain ⟨front, back, rfl, -, hfront, hback⟩ := h
  rcases List.mem_append.mp hc with hc | hc
  · exact hfront c hc hreach
  · rcases List.mem_cons.mp hc with rfl | hc
    · exact fun hself => hself.not_symm hself
    · exact (hback c hc hreach).not_symm

/-- What none of two bindings hides is at one depth and on one line. -/
theorem place_eq_of_not_hides (h : ¬ Hides b c) (h' : ¬ Hides c b) :
    b.depth = c.depth ∧ b.originLine = c.originLine := by
  unfold Hides at h h'
  omega

end Binding

theorem Finding.exists_nearest {bindings : List Binding} {lines : List Line}
    {name : String} {depth : Nat} {c : Binding} (hc : c ∈ bindings)
    (hreach : InReach name lines.length depth c) :
    ∃ b, Nearest bindings name lines.length depth b := by
  cases hlookup : (scopeAfter bindings {} 1 lines).lookup name depth with
  | some b => exact ⟨b, nearest_of_lookup hlookup⟩
  | none =>
    have hvisible := hreach.visible
    have hnone := Scope.lookup_eq_none hlookup c.depth.toNat (by omega)
    exact absurd hnone (at?_ne_none_of_inReach hc hreach)

/-- With fewer signatures a name refers to the same binding, or to a parameter that more of them
exempt. -/
theorem Classifier.Widens.nearest_or_follows {k k' : Classifier}
    {ls lines : List Line} {name : String} {depth : Nat} {d d' : Declarations} {b' : Binding}
    (hwidens : Widens k k') (hd : Declarations.ofLines k lines = .ok d)
    (hd' : Declarations.ofLines k' lines = .ok d')
    (h : Nearest d'.declared name ls.length depth b') :
    ∃ b, Nearest d.declared name ls.length depth b ∧ (b = b' ∨ b.Follows k'.signatures lines) := by
  obtain ⟨c, hc, hname, hline, hdepth⟩ := hwidens.exists_declared hd hd' h.mem
  have hreach : InReach name ls.length depth c := by
    obtain ⟨hn, hdeclared, hvisible⟩ := h.inReach
    exact ⟨by rw [hname, hn], by rw [hline]; exact hdeclared, by rw [hdepth]; exact hvisible⟩
  obtain ⟨b, hb⟩ := Finding.exists_nearest hc hreach
  refine ⟨b, hb, ?_⟩
  rcases hwidens.declared_or_follows hd hd' hb.mem with hkept | hfollows
  · -- Both are bindings with either signatures, and neither hides the other.
    have hb'b : ¬ Hides b' b := by
      have hcb := hb.not_hidden hc hreach
      unfold Hides at hcb ⊢
      rwa [← hdepth, ← hline]
    obtain ⟨-, hsame⟩ := place_eq_of_not_hides (h.not_hidden hkept hb.inReach) hb'b
    exact .inl (Declarations.eq_of_declared hd' hkept h.mem
      (hb.inReach.name_eq.trans h.inReach.name_eq.symm) hsame)
  · exact .inr hfollows

namespace Finding

variable {lines : List Line} {extents : Extents} {n : Int} {name : String}
  {raw : Line} {b b' : Binding} {kind : AccessKind} {col : Int}

/-- Below both declarations a later one has no more guards than an earlier one. -/
theorem Unguarded.of_later (h : Unguarded lines extents n name raw b' kind col)
    (hlater : b'.originLine ≤ b.originLine) (hline : b.originLine < n) :
    Unguarded lines extents n name raw b kind col := by
  have hread : readFrom b n = readFrom b' n := by
    unfold readFrom
    rw [if_neg (by omega), if_neg (by omega)]
  refine ⟨h.code, by rw [hread]; exact h.unguarded, by rw [hread]; exact h.access,
    fun z hz hstart => ?_⟩
  exact h.uncovered z hz (by omega)

theorem isDropped_congr {f g : Finding} (hline : f.line = g.line)
    (hname : f.bindingName = g.bindingName) :
    isDropped lines extents f = isDropped lines extents g := by
  unfold isDropped isSafeIdiom
  rw [hline, hname]

end Finding

/-! ## Reports -/

namespace Analysis

open Finding

variable {k k' : Classifier} {file : String} {lines : List Line} {n : Int}
  {name : String} {b : Binding} {d : Declarations}

/-- An analysis reports a name on line `n`. -/
def Reports (k : Classifier) (file : String) (lines : List Line) (n : Int) (name : String) : Prop :=
  ∃ fs, run file lines k = .ok fs ∧ ∃ f ∈ fs, f.line = n ∧ f.bindingName = name

/-- On line `n` of a file a name refers to a binding. -/
def RefersTo (k : Classifier) (lines : List Line) (n : Int) (name : String) (b : Binding) : Prop :=
  ∃ d, Declarations.ofLines k lines = .ok d ∧
    Nearest d.declared name n (Scope.readLines {} 1 (lines.take n.toNat)).depth b

theorem declarations_of_not_error (h : ∀ fault, run file lines k ≠ .error fault) :
    ∃ d, Declarations.ofLines k lines = .ok d := by
  cases hd : Declarations.ofLines k lines with
  | error fault => exact absurd (run_eq_error_iff.mpr hd) (h fault)
  | ok d => exact ⟨d, rfl⟩

/-- A name is reported where it is exposed and no known-safe idiom. -/
theorem reports_iff (hd : Declarations.ofLines k lines = .ok d) :
    Reports k file lines n name ↔
      (∃ raw b kind col, Exposed lines d.declared (.ofLines lines) n name raw b kind col) ∧
        ∀ f : Finding, f.line = n → f.bindingName = name →
          isDropped lines (.ofLines lines) f = false := by
  have hcols : ∀ b ∈ d.declared, 0 ≤ b.originCol := by
    intro b hb
    obtain ⟨-, -, -, -, -, col, hcol, -⟩ := Declarations.declaredAt_of_ofLines hd hb
    omega
  unfold Reports
  rw [run_of_ofLines hd, Declarations.extents_of_ofLines hd]
  constructor
  · rintro ⟨fs, hfs, f, hf, hline, hname⟩
    cases hfs
    obtain ⟨hf, hkept⟩ := List.mem_filter.mp hf
    obtain ⟨m, x, raw, b, kind, col, hexposed, rfl⟩ := (mem_generate_iff hcols file).mp hf
    cases hline
    cases hname
    refine ⟨⟨raw, b, kind, col, hexposed⟩, fun g hline hname => ?_⟩
    rw [isDropped_congr hline hname]
    simpa using hkept
  · rintro ⟨⟨raw, b, kind, col, hexposed⟩, hkept⟩
    obtain ⟨f, hf, hline, hname⟩ : ∃ f ∈ generate file lines d.declared (.ofLines lines),
        f.line = n ∧ f.bindingName = name :=
      ⟨_, (mem_generate_iff hcols file).mpr ⟨n, name, raw, b, kind, col, hexposed, rfl⟩, rfl, rfl⟩
    exact ⟨_, rfl, f, List.mem_filter.mpr ⟨hf, by simp [hkept f hline hname]⟩, hline, hname⟩

/-- With more signatures a name comes to refer to another binding on line `n`.  Until then it refers
to a parameter that they exempt, which is declared on the line itself or above the binding in its
place; and read for that parameter, the line does not access the name unguarded. -/
def Uncovered (rules : RuleSet) (signatures signatures' : List (List String))
    (lines : List Line) (n : Int) (name : String) : Prop :=
  ∃ raw b b', lines[(n - 1).toNat]? = some raw ∧ RefersTo ⟨rules, signatures⟩ lines n name b ∧
    RefersTo ⟨rules, signatures'⟩ lines n name b' ∧ b.Follows signatures' lines ∧
    (b.originLine = n ∨ b.originLine < b'.originLine) ∧
    ∀ kind col, ¬ Unguarded lines (.ofLines lines) n name raw b kind col

section Widening

variable {rules : RuleSet} {signatures signatures' : List (List String)}
  {d' : Declarations} {raw : Line} {b' : Binding} {kind : AccessKind} {col : Int}

/-- Whether an analysis comes to a result is for the rules to say, not for the signatures. -/
theorem run_eq_error_congr (hrules : rules.Compiles) (signatures signatures' : List (List String))
    (fault : Fault) :
    run file lines ⟨rules, signatures⟩ = .error fault ↔
      run file lines ⟨rules, signatures'⟩ = .error fault := by
  have hover : ∀ code, Classifier.Overlong ⟨rules, signatures⟩ code ↔
      Classifier.Overlong ⟨rules, signatures'⟩ code :=
    fun code => ⟨fun h => ⟨h.alone, h.initialised⟩, fun h => ⟨h.alone, h.initialised⟩⟩
  rw [run_eq_error_iff, run_eq_error_iff,
    Declarations.ofLines_eq_error_iff (k := ⟨rules, signatures⟩) hrules,
    Declarations.ofLines_eq_error_iff (k := ⟨rules, signatures'⟩) hrules]
  simp only [hover]

theorem exists_nearest_of_exposed (hwidens : k.Widens k')
    (hd : Declarations.ofLines k lines = .ok d) (hd' : Declarations.ofLines k' lines = .ok d')
    (h : Exposed lines d'.declared (.ofLines lines) n name raw b' kind col) :
    ∃ b, Nearest d.declared name n (Scope.readLines {} 1 (lines.take n.toNat)).depth b ∧
      (b = b' ∨ b.Follows k'.signatures lines) := by
  obtain ⟨hn, hraw⟩ := h.line
  obtain ⟨hlast, -⟩ := List.getElem?_eq_some_iff.mp hraw
  have hlength : ((lines.take n.toNat).length : Int) = n := by
    rw [List.length_take]
    omega
  have hnearest := h.nearest
  rw [← hlength] at hnearest ⊢
  exact hwidens.nearest_or_follows hd hd' hnearest

theorem Uncovered.not_reports (h : Uncovered rules signatures signatures' lines n name) :
    ¬ Reports ⟨rules, signatures⟩ file lines n name := by
  obtain ⟨raw, b, -, hraw, ⟨d, hd, hb⟩, -, -, -, hguarded⟩ := h
  intro hreports
  obtain ⟨⟨raw₁, b₁, kind₁, col₁, hexposed⟩, -⟩ := (reports_iff hd).mp hreports
  obtain rfl : b = b₁ := hb.unique hexposed.nearest
  obtain rfl : raw = raw₁ := Option.some_inj.mp (hraw.symm.trans hexposed.line.2)
  exact hguarded kind₁ col₁ hexposed.unguarded

/-- Where a name is exposed with more signatures, it is exposed with fewer, or uncovered. -/
theorem exposed_or_uncovered (hmore : ∀ s ∈ signatures, s ∈ signatures')
    (hd : Declarations.ofLines ⟨rules, signatures⟩ lines = .ok d)
    (hd' : Declarations.ofLines ⟨rules, signatures'⟩ lines = .ok d')
    (h : Exposed lines d'.declared (.ofLines lines) n name raw b' kind col) :
    (∃ b kind col, Exposed lines d.declared (.ofLines lines) n name raw b kind col) ∨
      Uncovered rules signatures signatures' lines n name := by
  have hwidens := Classifier.widens_of_subset rules hmore
  obtain ⟨b, hb, hplace⟩ := exists_nearest_of_exposed hwidens hd hd' h
  by_cases hexposed : ∃ kind col, Unguarded lines (.ofLines lines) n name raw b kind col
  · obtain ⟨kind₁, col₁, hunguarded⟩ := hexposed
    exact .inl ⟨b, kind₁, col₁, h.line, hb, hunguarded⟩
  · have hguarded : ∀ kind col, ¬ Unguarded lines (.ofLines lines) n name raw b kind col :=
      fun kind col hunguarded => hexposed ⟨kind, col, hunguarded⟩
    have hfollows : b.Follows signatures' lines := by
      rcases hplace with rfl | hfollows
      · exact absurd h.unguarded (hguarded kind col)
      · exact hfollows
    have hwhere : b.originLine = n ∨ b.originLine < b'.originLine := by
      have hdeclared := hb.inReach.declared
      by_contra helsewhere
      exact hguarded kind col (h.unguarded.of_later (by omega) (by omega))
    exact .inr ⟨raw, b, b', h.line.2, ⟨d, hd, hb⟩, ⟨d', hd', h.nearest⟩, hfollows, hwhere, hguarded⟩

/-- More signatures do not change whether an analysis comes to a result.  What is reported with them
is reported without them, unless they uncover it. -/
theorem exempting_only_uncovers (hrules : rules.Compiles)
    (hmore : ∀ s ∈ signatures, s ∈ signatures') (file : String) (lines : List Line) :
    (∀ fault, run file lines ⟨rules, signatures'⟩ = .error fault ↔
      run file lines ⟨rules, signatures⟩ = .error fault) ∧
    ∀ n name, Reports ⟨rules, signatures'⟩ file lines n name →
      (Reports ⟨rules, signatures⟩ file lines n name ↔
        ¬ Uncovered rules signatures signatures' lines n name) := by
  refine ⟨run_eq_error_congr hrules _ _, fun n name hreports => ⟨fun h huncovered =>
    huncovered.not_reports h, fun hnot => ?_⟩⟩
  have hresult : ∀ fault, run file lines ⟨rules, signatures'⟩ ≠ .error fault := by
    obtain ⟨fs, hfs, -⟩ := hreports
    intro fault hfault
    cases hfs.symm.trans hfault
  obtain ⟨d', hd'⟩ := declarations_of_not_error hresult
  obtain ⟨d, hd⟩ := declarations_of_not_error fun fault hfault =>
    hresult fault ((run_eq_error_congr hrules _ _ fault).mp hfault)
  obtain ⟨⟨raw, b', kind, col, hexposed⟩, hkept⟩ := (reports_iff hd').mp hreports
  obtain ⟨b, kind₁, col₁, hfewer⟩ := (exposed_or_uncovered hmore hd hd' hexposed).resolve_right hnot
  exact (reports_iff hd).mpr ⟨⟨raw, b, kind₁, col₁, hfewer⟩, hkept⟩

end Widening

/-- The places of a run are what it reports. -/
theorem reports_iff_mem_places {places : List (Int × String)}
    (h : (run file lines k).toOption.map (·.map fun f => (f.line, f.bindingName)) = some places) :
    Reports k file lines n name ↔ (n, name) ∈ places := by
  obtain ⟨fs, hfs, rfl⟩ := exists_of_toOption_map h
  simp [Reports, hfs]

/-- A parameter is read below a handler that has one of the same name. -/
def belowHandler : List Line :=
  ["function f(req) \x7b".toList, "app.get('/', (req, res) => \x7b \x7d);".toList, "req.a;".toList,
    "\x7d".toList]

theorem exempting_only_uncovers_sample :
    RuleSet.Compiles {} ∧ Reports ⟨{}, [["req", "res"]]⟩ "a.js" belowHandler 3 "req" ∧
      Reports ⟨{}, []⟩ "a.js" belowHandler 3 "req" ∧
      ¬ Uncovered {} [] [["req", "res"]] belowHandler 3 "req" := by
  have hruns : (run "a.js" belowHandler ⟨{}, [["req", "res"]]⟩).toOption.map
        (·.map fun f => (f.line, f.bindingName)) = some [(3, "req")] ∧
      (run "a.js" belowHandler ⟨{}, []⟩).toOption.map
        (·.map fun f => (f.line, f.bindingName)) = some [(3, "req")] := by
    decide +kernel
  have hrules : RuleSet.Compiles {} := List.forall_mem_nil _
  have hwith := (reports_iff_mem_places hruns.1).mpr (List.mem_singleton.mpr rfl)
  have hwithout := (reports_iff_mem_places hruns.2).mpr (List.mem_singleton.mpr rfl)
  have hmore : ∀ s ∈ ([] : List (List String)), s ∈ [["req", "res"]] := List.forall_mem_nil _
  obtain ⟨-, hiff⟩ := exempting_only_uncovers hrules hmore "a.js" belowHandler
  exact ⟨hrules, hwith, hwithout, (hiff 3 "req" hwith).mp hwithout⟩

/-- A parameter is read on the line of a handler that has one of the same name, and before it. -/
def besideHandler : List Line :=
  ["function f(req) \x7b".toList,
    "req.a; app.get('/', (req, res) => \x7b \x7d);".toList, "\x7d".toList]

/-- With no signature the name is not reported there, and with the handler's it is. -/
theorem exemption_adds_report :
    RuleSet.Compiles {} ∧ (∀ s ∈ ([] : List (List String)), s ∈ [["req", "res"]]) ∧
      Reports ⟨{}, [["req", "res"]]⟩ "a.js" besideHandler 2 "req" ∧
      ¬ Reports ⟨{}, []⟩ "a.js" besideHandler 2 "req" := by
  have hruns : (run "a.js" besideHandler ⟨{}, [["req", "res"]]⟩).toOption.map
        (·.map fun f => (f.line, f.bindingName)) = some [(2, "req")] ∧
      (run "a.js" besideHandler ⟨{}, []⟩).toOption.map
        (·.map fun f => (f.line, f.bindingName)) = some [] := by
    decide +kernel
  refine ⟨List.forall_mem_nil _, List.forall_mem_nil _,
    (reports_iff_mem_places hruns.1).mpr (List.mem_singleton.mpr rfl), ?_⟩
  rw [reports_iff_mem_places hruns.2]
  exact List.not_mem_nil

end Analysis

end NullAccess
