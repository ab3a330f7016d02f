import NullAccess.Framework
import NullAccess.Proofs.Framework.Exemption

/-!
# Where a convention would apply

A search for a convention lists the functions of every line that follow one of its signatures
(`mem_found_iff`).  It looks for three of the four forms in which a line declares functions: an
arrow function whose one parameter stands without parentheses is passed over.  A line on which the
convention exempts a parameter is listed unless all functions on it that follow a signature are of
that form (`exempted_line_listed_iff`).
-/

namespace NullAccess

namespace FrameworkMatch

variable {signatures : List (List String)} {file : String} {n : Int} {raw code : Line}
  {lines : List Line} {m : FrameworkMatch}

theorem mem_ofLine_iff :
    m ∈ ofLine signatures file n raw ↔ Source.isCommentLine raw = false ∧
      ∃ d ∈ declared (Source.code raw), Source.signature d.2 ∈ signatures ∧
        m = { file, line := n, function := String.ofList d.1, params := Source.signature d.2 } := by
  unfold ofLine
  cases Source.isCommentLine raw with
  | true => simp
  | false =>
    rw [if_neg Bool.false_ne_true, List.mem_filterMap]
    simp [eq_comm]

theorem mem_ofLines_iff :
    m ∈ ofLines signatures file n lines ↔
      ∃ (i : Nat) (raw : Line), lines[i]? = some raw ∧ m ∈ ofLine signatures file (n + i) raw := by
  induction lines generalizing n with
  | nil => simp [ofLines]
  | cons first rest ih =>
    rw [ofLines, List.mem_append, ih]
    constructor
    · rintro (hfirst | ⟨i, raw, hraw, hm⟩)
      · exact ⟨0, first, rfl, by simpa using hfirst⟩
      · refine ⟨i + 1, raw, hraw, ?_⟩
        rwa [show n + ((i + 1 : Nat) : Int) = n + 1 + i by omega]
    · rintro ⟨i, raw, hraw, hm⟩
      cases i with
      | zero =>
        cases hraw
        exact .inl (by simpa using hm)
      | succ i =>
        rw [show n + ((i + 1 : Nat) : Int) = n + 1 + i by omega] at hm
        exact .inr ⟨i, raw, hraw, hm⟩

/-- A function whose parameters are taken is one that is looked for, or an arrow function with a
bare parameter. -/
theorem declared_or_bare {f : Classifier.Function} (h : f ∈ Classifier.functionsOn code) :
    (∃ d ∈ declared code, d.2 = f.params) ∨
      ∃ m, Declaration.arrowSingle.find? code = some m ∧ m.group 2 = f.params := by
  rw [Classifier.functionsOn, List.mem_append, List.mem_append] at h
  unfold declared
  rcases h with (hfunction | harrow) | hroute
  · obtain ⟨m, hm, rfl⟩ := List.mem_map.mp hfunction
    refine .inl ⟨(m.group 1, m.group 2), ?_, rfl⟩
    exact List.mem_append_left _ (List.mem_append_left _
      (List.mem_map.mpr ⟨m, (List.mem_filter.mp hm).1, rfl⟩))
  · obtain ⟨m, hm, rfl⟩ := List.mem_map.mp harrow
    obtain ⟨a, ha, hfound⟩ := List.mem_filterMap.mp hm
    simp only [List.mem_cons, List.not_mem_nil, or_false] at ha
    rcases ha with rfl | rfl
    · refine .inl ⟨(m.group 1, m.group 2), ?_, rfl⟩
      exact List.mem_append_left _ (List.mem_append_right _ (by simp [hfound]))
    · exact .inr ⟨m, hfound, rfl⟩
  · obtain ⟨m, hm, rfl⟩ := List.mem_map.mp hroute
    refine .inl ⟨([], m.group 1), List.mem_append_right _ ?_, rfl⟩
    simp [Option.mem_toList.mp hm]

/-- All functions in the code of a line that follow a signature are arrow functions with a bare
parameter. -/
structure OnlyBare (signatures : List (List String)) (code : Line) : Prop where
  bare :
    ∃ m, Declaration.arrowSingle.find? code = some m ∧ Source.signature (m.group 2) ∈ signatures
  others : ∀ d ∈ declared code, Source.signature d.2 ∉ signatures

end FrameworkMatch

namespace Framework

open FrameworkMatch

variable {t : Tree} {root : Path} {signatures : List (List String)}
  {files : List String} {file : String} {lines : List Line}

/-- Whether a file can be searched or is passed over: it can be read, or the system refuses it. -/
def Searchable (t : Tree) (root : Path) (file : String) : Prop :=
  ∀ e, t.sourceLines (root.join (Path.ofText file)) = .error e → e.cause.isRefusal = true

theorem usageIn_ok (signatures : List (List String)) (h : Searchable t root file) :
    ∃ ws u, usageIn t root signatures file = (ws, .ok u) ∧ ∀ m, m ∈ u.found ↔
      ∃ lines, t.sourceLines (root.join (Path.ofText file)) = .ok lines ∧
        m ∈ ofLines signatures file 1 lines := by
  unfold usageIn
  cases hlines : t.sourceLines (root.join (Path.ofText file)) with
  | ok lines => exact ⟨_, _, rfl, by simp⟩
  | error e => exact ⟨_, _, if_pos (h e hlines), by simp⟩

theorem usage_cons (t : Tree) (root : Path) (signatures : List (List String)) (file : String)
    (rest : List String) :
    usage t root signatures (file :: rest) =
      match usageIn t root signatures file with
      | (ws, .error f) => (ws, .error f)
      | (ws, .ok u) =>
        let (more, others) := usage t root signatures rest
        (ws ++ more, others.map u.append) := by
  -- `unfold` would look for the cases of the search of a file, and take long over it.
  delta usage
  rfl

/-- A search of files that can be searched ends, and finds what follows a signature on their
lines. -/
theorem mem_found_iff (signatures : List (List String))
    (h : ∀ file ∈ files, Searchable t root file) :
    ∃ ws u, usage t root signatures files = (ws, .ok u) ∧ ∀ m, m ∈ u.found ↔
      ∃ file ∈ files, ∃ lines, t.sourceLines (root.join (Path.ofText file)) = .ok lines ∧
        m ∈ ofLines signatures file 1 lines := by
  induction files with
  | nil => exact ⟨[], {}, rfl, by simp⟩
  | cons file rest ih =>
    obtain ⟨hfirst, hrest⟩ := List.forall_mem_cons.mp h
    obtain ⟨ws, u, hu, hfound⟩ := usageIn_ok signatures hfirst
    obtain ⟨more, others, hothers, hlater⟩ := ih hrest
    have hboth : usage t root signatures (file :: rest) = (ws ++ more, .ok (u.append others)) := by
      rw [usage_cons, hu]
      dsimp only
      rw [hothers]
      rfl
    refine ⟨ws ++ more, u.append others, hboth, fun m => ?_⟩
    simp only [Usage.append, List.mem_append, hfound, hlater, List.mem_cons, exists_eq_or_imp]

/-- A line of code is listed iff one of the functions that are looked for on it follows a
signature. -/
theorem listed_iff {i : Nat} {raw : Line} (hfiles : ∀ other ∈ files, Searchable t root other)
    (hfile : file ∈ files) (hlines : t.sourceLines (root.join (Path.ofText file)) = .ok lines)
    (hraw : lines[i]? = some raw) (hcode : Source.isCommentLine raw = false) :
    ∃ ws u, usage t root signatures files = (ws, .ok u) ∧
      ((∃ m ∈ u.found, m.file = file ∧ m.line = 1 + i) ↔
        ∃ d ∈ declared (Source.code raw), Source.signature d.2 ∈ signatures) := by
  obtain ⟨ws, u, hu, hfound⟩ := mem_found_iff signatures hfiles
  refine ⟨ws, u, hu, ?_, ?_⟩
  · rintro ⟨m, hm, rfl, hline⟩
    obtain ⟨other, -, lines', hlines', hm⟩ := (hfound m).mp hm
    obtain ⟨j, raw', hraw', hm⟩ := mem_ofLines_iff.mp hm
    obtain ⟨-, d, hd, hsignature, rfl⟩ := mem_ofLine_iff.mp hm
    obtain rfl : lines' = lines := Except.ok.inj (hlines'.symm.trans hlines)
    obtain rfl : j = i := by
      dsimp only at hline
      omega
    obtain rfl : raw' = raw := Option.some_inj.mp (hraw'.symm.trans hraw)
    exact ⟨d, hd, hsignature⟩
  · rintro ⟨d, hd, hsignature⟩
    exact ⟨_, (hfound _).mpr ⟨file, hfile, lines, hlines, mem_ofLines_iff.mpr
      ⟨i, raw, hraw, mem_ofLine_iff.mpr ⟨hcode, d, hd, hsignature, rfl⟩⟩⟩, rfl, rfl⟩

/-- The function of an exempted parameter follows a signature, in whichever form it is declared. -/
theorem follows_or_onlyBare {rules : RuleSet} {code : Line} {n depth : Int} {b : Binding}
    (hyields : Classifier.Yields { rules } code n depth lines b)
    (hexempt : ¬ Classifier.Yields { rules, signatures } code n depth lines b) :
    (∃ d ∈ declared code, Source.signature d.2 ∈ signatures) ∨ OnlyBare signatures code := by
  have hwidens : Classifier.Widens { rules } { rules, signatures } :=
    Classifier.widens_of_subset rules (List.forall_mem_nil _)
  obtain ⟨f, hf, -, hfollows⟩ := (hwidens.yields_or_exempt hyields).resolve_left hexempt
  rw [Classifier.isExempt_iff] at hfollows
  by_cases hlisted : ∃ d ∈ declared code, Source.signature d.2 ∈ signatures
  · exact .inl hlisted
  · have hothers : ∀ d ∈ declared code, Source.signature d.2 ∉ signatures :=
      fun d hd hsignature => hlisted ⟨d, hd, hsignature⟩
    rcases declared_or_bare hf with ⟨d, hd, hparams⟩ | ⟨m, hm, hparams⟩
    · exact absurd (hparams ▸ hfollows) (hothers d hd)
    · exact .inr ⟨⟨m, hm, hparams ▸ hfollows⟩, hothers⟩

/-- A line on which a convention exempts a parameter is listed, unless all its functions that follow
a signature are arrow functions with a bare parameter. -/
theorem exempted_line_listed_iff {rules : RuleSet} {i : Nat} {raw : Line}
    {depth : Int} {b : Binding} (hfiles : ∀ other ∈ files, Searchable t root other)
    (hfile : file ∈ files) (hlines : t.sourceLines (root.join (Path.ofText file)) = .ok lines)
    (hraw : lines[i]? = some raw) (hcode : Source.isCommentLine raw = false)
    (hyields : Classifier.Yields { rules } (Source.code raw) (1 + i) depth lines b)
    (hexempt : ¬ Classifier.Yields { rules, signatures } (Source.code raw) (1 + i) depth lines b) :
    ∃ ws u, usage t root signatures files = (ws, .ok u) ∧
      ((∃ m ∈ u.found, m.file = file ∧ m.line = 1 + i) ↔
        ¬ OnlyBare signatures (Source.code raw)) := by
  obtain ⟨ws, u, hu, hlisted⟩ := listed_iff hfiles hfile hlines hraw hcode
  refine ⟨ws, u, hu, hlisted.trans ⟨?_, fun hnot => ?_⟩⟩
  · rintro ⟨d, hd, hsignature⟩ hbare
    exact hbare.others d hd hsignature
  · exact (follows_or_onlyBare hyields hexempt).resolve_right hnot

/-- A handler below a comment. -/
def handlerProject : Tree :=
  ⟨[(["p"], .dir), (["p", "a.js"], .file "// routes\nconst f = (req, res) => 1;\n".toUTF8)]⟩

/-- Its first parameter. -/
def handlerParam : Binding :=
  { name := "req", originLine := 2, originCol := 23, kind := .parameter,
    reason := BindingKind.parameter.reason }

theorem exempted_line_listed_iff_sample :
    Classifier.Yields { rules := {} } "const f = (req, res) => 1;".toList 2 0
        ["// routes".toList, "const f = (req, res) => 1;".toList] handlerParam ∧
      ¬ Classifier.Yields { rules := {}, signatures := [["req", "res"]] }
        "const f = (req, res) => 1;".toList 2 0
        ["// routes".toList, "const f = (req, res) => 1;".toList] handlerParam ∧
      ∃ ws u, usage handlerProject ⟨.root, ["p"]⟩ [["req", "res"]] ["a.js"] = (ws, .ok u) ∧
        ∃ m ∈ u.found, m.file = "a.js" ∧ m.line = 2 := by
  have hlines : handlerProject.sourceLines (Path.join ⟨.root, ["p"]⟩ (Path.ofText "a.js")) =
      .ok ["// routes".toList, "const f = (req, res) => 1;".toList] := by
    decide +kernel
  have hfiles : ∀ other ∈ ["a.js"], Searchable handlerProject ⟨.root, ["p"]⟩ other := by
    intro other hother e he
    rw [List.mem_singleton.mp hother, hlines] at he
    cases he
  have hyields : Classifier.Yields { rules := {} } "const f = (req, res) => 1;".toList 2 0
      ["// routes".toList, "const f = (req, res) => 1;".toList] handlerParam := by
    decide +kernel
  have hexempt : ¬ Classifier.Yields { rules := {}, signatures := [["req", "res"]] }
      "const f = (req, res) => 1;".toList 2 0
      ["// routes".toList, "const f = (req, res) => 1;".toList] handlerParam := by
    decide +kernel
  have hnot : ¬ OnlyBare [["req", "res"]] "const f = (req, res) => 1;".toList := fun hbare =>
    hbare.others ("f".toList, "req, res".toList) (by decide +kernel) (by decide +kernel)
  obtain ⟨ws, u, hu, hlisted⟩ := @exempted_line_listed_iff _ _ [["req", "res"]] _ _ _ {} 1
    "const f = (req, res) => 1;".toList 0 handlerParam hfiles List.mem_cons_self
      hlines rfl rfl hyields
    hexempt
  exact ⟨hyields, hexempt, ws, u, hu, hlisted.mpr hnot⟩

/-- A handler with a bare parameter. -/
def bareProject : Tree :=
  ⟨[(["p"], .dir), (["p", "a.js"], .file "const f = req => 1;\n".toUTF8)]⟩

def bareParam : Binding :=
  { name := "req", originLine := 1, originCol := 16, kind := .parameter,
    reason := BindingKind.parameter.reason }

/-- A signature exempts a bare parameter, and a search for the signature finds nothing. -/
theorem bare_parameter_unlisted :
    bareProject.sourceLines (Path.join ⟨.root, ["p"]⟩ (Path.ofText "a.js")) =
        .ok ["const f = req => 1;".toList] ∧
      Source.isCommentLine "const f = req => 1;".toList = false ∧
      Classifier.Yields { rules := {} } "const f = req => 1;".toList 1 0
        ["const f = req => 1;".toList] bareParam ∧
      ¬ Classifier.Yields { rules := {}, signatures := [["req"]] } "const f = req => 1;".toList 1 0
        ["const f = req => 1;".toList] bareParam ∧
      usage bareProject ⟨.root, ["p"]⟩ [["req"]] ["a.js"] = ([], .ok {}) := by
  refine ⟨by decide +kernel, by decide, by decide +kernel, by decide +kernel, by decide +kernel⟩

end Framework

end NullAccess
