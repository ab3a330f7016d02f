import Mathlib.Data.List.Induction
import NullAccess.Proofs.Analysis.Declared
import NullAccess.Proofs.Scope.Letters

/-!
# What an exemption takes from a line

Signatures have a say on a line only where it declares functions (`classify_cases`).  There the
parameters of the functions that follow no signature are taken in order, and of each name the last
one stays (`mem_dedupe_iff`).  So with more signatures a binding is given up only if its own
function follows one of them (`Widens.yields_or_exempt`); another binding of the same name may come
to light in its place, but no name is new on the line (`Widens.yields_name`).
-/

namespace NullAccess

namespace Classifier

variable {k k' : Classifier} {line : Line} {n depth : Int} {lines : List Line} {b b' c : Binding}
  {bs us vs : List Binding}

/-! ## The last binding of each name -/

/-- A binding behind which no other one in the list has its name. -/
def IsLast (bs : List Binding) (b : Binding) : Prop :=
  ∃ front back, bs = front ++ b :: back ∧ ∀ c ∈ back, c.name ≠ b.name

theorem IsLast.mem (h : IsLast bs b) : b ∈ bs := by
  obtain ⟨front, back, rfl, -⟩ := h
  simp

theorem IsLast.unique (h : IsLast bs b) (h' : IsLast bs b') (hname : b.name = b'.name) :
    b = b' := by
  obtain ⟨front, back, rfl, hback⟩ := h
  obtain ⟨front', back', heq, hback'⟩ := h'
  obtain ⟨-, rfl, -⟩ | ⟨u, rfl, rfl⟩ | ⟨u, rfl, rfl⟩ := split_cases heq
  · rfl
  · exact absurd hname.symm (hback b' (by simp))
  · exact absurd hname (hback' b (by simp))

theorem isLast_append :
    IsLast (us ++ vs) b ↔ IsLast vs b ∨ IsLast us b ∧ ∀ c ∈ vs, c.name ≠ b.name := by
  constructor
  · rintro ⟨front, back, heq, hback⟩
    rcases List.append_eq_append_iff.mp heq with ⟨w, rfl, rfl⟩ | ⟨w, rfl, hw⟩
    · exact .inl ⟨w, back, rfl, hback⟩
    · cases w with
      | nil =>
        rw [List.nil_append] at hw
        exact .inl ⟨[], back, hw.symm, hback⟩
      | cons x w =>
        rw [List.cons_append, List.cons.injEq] at hw
        obtain ⟨rfl, rfl⟩ := hw
        exact .inr ⟨⟨front, w, rfl, fun c hc => hback c (by simp [hc])⟩,
          fun c hc => hback c (by simp [hc])⟩
  · rintro (⟨front, back, rfl, hback⟩ | ⟨⟨front, back, rfl, hback⟩, hlater⟩)
    · exact ⟨us ++ front, back, by simp, hback⟩
    · refine ⟨front, back ++ vs, by simp, fun c hc => ?_⟩
      rcases List.mem_append.mp hc with hc | hc
      · exact hback c hc
      · exact hlater c hc

theorem isLast_singleton : IsLast [c] b ↔ b = c := by
  constructor
  · intro h
    exact List.mem_singleton.mp h.mem
  · rintro rfl
    exact ⟨[], [], rfl, List.forall_mem_nil _⟩

theorem exists_isLast (h : b ∈ bs) : ∃ c, IsLast bs c ∧ c.name = b.name := by
  induction bs using List.reverseRecOn with
  | nil => cases h
  | append_singleton rest c ih =>
    by_cases hname : c.name = b.name
    · exact ⟨c, isLast_append.mpr (.inl (isLast_singleton.mpr rfl)), hname⟩
    · have hrest : b ∈ rest := by
        rcases List.mem_append.mp h with hrest | hlast
        · exact hrest
        · exact absurd (congrArg Binding.name (List.mem_singleton.mp hlast)).symm hname
      obtain ⟨d, hd, hsame⟩ := ih hrest
      refine ⟨d, isLast_append.mpr (.inr ⟨hd, fun e he => ?_⟩), hsame⟩
      rw [List.mem_singleton.mp he, hsame]
      exact hname

theorem mem_keepLatest {held : List Binding} :
    b ∈ keepLatest held c ↔ b = c ∨ b ∈ held ∧ b.name ≠ c.name := by
  unfold keepLatest
  split
  · rename_i hany
    obtain ⟨old, hold, hname⟩ := List.any_eq_true.mp hany
    rw [beq_iff_eq] at hname
    rw [List.mem_map]
    constructor
    · rintro ⟨h, hh, rfl⟩
      by_cases heq : h.name = c.name
      · exact .inl (by simp [heq])
      · exact .inr (by simpa [heq] using hh)
    · rintro (rfl | ⟨hb, hne⟩)
      · exact ⟨old, hold, by simp [hname]⟩
      · exact ⟨b, hb, by simp [hne]⟩
  · rename_i hnone
    rw [List.mem_append, List.mem_singleton, or_comm]
    refine or_congr_right ⟨fun hb => ⟨hb, fun heq => hnone ?_⟩, fun hb => hb.1⟩
    exact List.any_eq_true.mpr ⟨b, hb, by simp [heq]⟩

/-- What is kept of a list are its last bindings. -/
theorem mem_dedupe_iff : b ∈ dedupe bs ↔ IsLast bs b := by
  induction bs using List.reverseRecOn with
  | nil => exact ⟨nofun, fun h => h.mem⟩
  | append_singleton rest c ih =>
    rw [dedupe, List.foldl_append, List.foldl_cons, List.foldl_nil, mem_keepLatest, isLast_append,
      isLast_singleton, ← ih]
    simp [dedupe, eq_comm]

/-! ## The functions on a line -/

/-- A function that a line declares: its name, its parameter list, and the column behind it. -/
structure Function where
  name : List Char
  params : List Char
  col : Nat

/-- The functions of a line whose parameters are taken, in that order: those with the keyword that
are no callbacks by convention, then the first arrow function of each form, then the first route
handler. -/
def functionsOn (line : Line) : List Function :=
  ((Declaration.function.findAll line).filter fun m => !isConventional (line.take m.startCol)).map
      (fun m => ⟨functionName line m, m.group 2, m.stopCol⟩) ++
    ([Declaration.arrow, Declaration.arrowSingle].filterMap (·.find? line)).map
      (fun m => ⟨m.group 1, m.group 2, m.stopCol⟩) ++
    (Declaration.route.find? line).toList.map fun m => ⟨[], m.group 1, m.stopCol⟩

/-- The risky parameters of a function on a line. -/
def ofFunction (k : Classifier) (line : Line) (n depth : Int) (f : Function) : List Binding :=
  k.ofParams f.name f.params line n depth f.col

theorem ofFunctions_eq (k : Classifier) (line : Line) (n depth : Int) (found : List Pattern.Match) :
    k.ofFunctions line n depth found =
      ((found.filter fun m => !isConventional (line.take m.startCol)).map fun m =>
        (⟨functionName line m, m.group 2, m.stopCol⟩ : Function)).flatMap
          (k.ofFunction line n depth) := by
  rw [List.flatMap_map]
  induction found with
  | nil => rfl
  | cons m rest ih =>
    rw [ofFunctions, List.flatMap_cons, ← ofFunctions, ih, List.filter_cons]
    cases isConventional (line.take m.startCol) <;> rfl

/-- Whether a line declares a function in none of its forms. -/
def declaresNone (line : Line) : Bool :=
  (Declaration.function.findAll line).isEmpty &&
    ([Declaration.arrow, Declaration.arrowSingle].filterMap (·.find? line)).isEmpty &&
    (Declaration.route.find? line).toList.isEmpty

theorem classify_eq (k : Classifier) (line : Line) (n depth : Int) (lines : List Line) :
    k.classify line n depth lines =
      if Declaration.forEachLoop.occursIn line then .ok []
      else if declaresNone line then
        match Declaration.variableInit.find? line with
        | some m => k.ofVariable m n depth lines
        | none => .ok []
      else .ok (dedupe ((functionsOn line).flatMap (k.ofFunction line n depth))) := by
  rw [functionsOn, List.flatMap_append, List.flatMap_append, ← ofFunctions_eq, List.flatMap_map,
    List.flatMap_map]
  rfl

/-- A line declares functions, or the signatures have no say in it. -/
theorem classify_cases (line : Line) :
    (∀ {k k' : Classifier}, k.rules = k'.rules → ∀ n depth lines,
      k.classify line n depth lines = k'.classify line n depth lines) ∨
    ∀ (k : Classifier) n depth lines, k.classify line n depth lines =
      .ok (dedupe ((functionsOn line).flatMap (k.ofFunction line n depth))) := by
  by_cases hloop : Declaration.forEachLoop.occursIn line = true
  · refine .inl fun _ n depth lines => ?_
    rw [classify_eq, classify_eq, if_pos hloop, if_pos hloop]
  · by_cases hnone : declaresNone line = true
    · refine .inl fun hrules n depth lines => ?_
      rw [classify_eq, classify_eq, if_neg hloop, if_neg hloop, if_pos hnone, if_pos hnone]
      unfold ofVariable
      rw [hrules]
    · refine .inr fun k n depth lines => ?_
      rw [classify_eq, if_neg hloop, if_neg hnone]

theorem isExempt_iff {params : List Char} :
    k.isExempt params = true ↔ Source.signature params ∈ k.signatures := by
  unfold isExempt
  rw [Bool.and_eq_true, List.contains_iff_mem]
  refine ⟨fun h => h.2, fun h => ⟨?_, h⟩⟩
  rw [Bool.not_eq_true', List.isEmpty_eq_false_iff]
  exact List.ne_nil_of_mem h

theorem ofFunction_of_exempt {f : Function} (h : k.isExempt f.params = true) :
    k.ofFunction line n depth f = [] := if_pos h

theorem ofFunction_of_not_exempt {f : Function} (h : ¬ k.isExempt f.params = true)
    (h' : ¬ k'.isExempt f.params = true) :
    k.ofFunction line n depth f = k'.ofFunction line n depth f := by
  unfold ofFunction ofParams
  rw [if_neg h, if_neg h']

/-- Two classifiers of one rule set, of which the second exempts what the first one does. -/
structure Widens (k k' : Classifier) : Prop where
  rules : k.rules = k'.rules
  exempts : ∀ params, k.isExempt params = true → k'.isExempt params = true

theorem widens_of_subset (rules : RuleSet) {signatures signatures' : List (List String)}
    (h : ∀ s ∈ signatures, s ∈ signatures') : Widens ⟨rules, signatures⟩ ⟨rules, signatures'⟩ :=
  ⟨rfl, fun _ hexempt => isExempt_iff.mpr (h _ (isExempt_iff.mp hexempt))⟩

/-! ## What a line yields -/

/-- The code of line `n` declares a risky binding. -/
def Yields (k : Classifier) (line : Line) (n depth : Int) (lines : List Line)
    (b : Binding) : Prop :=
  ∃ bs, k.classify line n depth lines = .ok bs ∧ b ∈ bs

instance (k : Classifier) (line : Line) (n depth : Int) (lines : List Line) (b : Binding) :
    Decidable (k.Yields line n depth lines b) :=
  match h : k.classify line n depth lines with
  | .ok bs => decidable_of_iff (b ∈ bs)
      ⟨fun hb => ⟨bs, h, hb⟩, fun ⟨_, hbs, hb⟩ => Except.ok.inj (h.symm.trans hbs) ▸ hb⟩
  | .error _ => isFalse fun ⟨_, hbs, _⟩ => nomatch h.symm.trans hbs

/-- A variable is one binding at most. -/
theorem ofVariable_eq_ok {m : Pattern.Match} (h : k.ofVariable m n depth lines = .ok bs) :
    bs = [] ∨ ∃ b, bs = [b] ∧ b.depth = depth := by
  unfold ofVariable at h
  dsimp only at h
  split at h
  · cases h
    exact .inl rfl
  · split at h
    · cases h
    · split at h
      · split at h
        · cases h
        · cases h
          exact .inl rfl
        · cases h
          exact .inr ⟨_, rfl, rfl⟩
      · cases h
        exact .inl rfl

/-- A binding is a parameter of a function. -/
structure IsParam (f : Function) (b : Binding) : Prop where
  kind_eq : b.kind = .parameter
  name_mem : b.name ∈ Source.absentableParams f.params
  col_eq : b.originCol = f.col

theorem of_mem_ofFunction {f : Function} (h : b ∈ k.ofFunction line n depth f) :
    b.depth = depth ∧ IsParam f b := by
  unfold ofFunction ofParams at h
  split at h
  · cases h
  · obtain ⟨p, hp, rfl⟩ := List.mem_map.mp h
    exact ⟨rfl, rfl, (List.mem_filter.mp hp).1, rfl⟩

/-- What a line yields is a variable, or the last parameters of its functions. -/
theorem classify_eq_ok (h : k.classify line n depth lines = .ok bs) :
    (bs = [] ∨ ∃ b, bs = [b] ∧ b.depth = depth) ∨
      bs = dedupe ((functionsOn line).flatMap (k.ofFunction line n depth)) := by
  rw [classify_eq] at h
  split at h
  · cases h
    exact .inl (.inl rfl)
  · split at h
    · split at h
      · exact .inl (ofVariable_eq_ok h)
      · cases h
        exact .inl (.inl rfl)
    · cases h
      exact .inr rfl

theorem Yields.place (h : k.Yields line n depth lines b) : b.originLine = n ∧ b.depth = depth := by
  obtain ⟨bs, hbs, hb⟩ := h
  refine ⟨(clear_of_classify hbs hb).1, ?_⟩
  rcases classify_eq_ok hbs with (rfl | ⟨c, rfl, hc⟩) | rfl
  · cases hb
  · rw [List.mem_singleton.mp hb]
    exact hc
  · obtain ⟨f, -, hf⟩ := List.mem_flatMap.mp (mem_of_mem_dedupe hb)
    exact (of_mem_ofFunction hf).1

/-- A line yields one binding of a name at most. -/
theorem Yields.unique (h : k.Yields line n depth lines b) (h' : k.Yields line n depth lines b')
    (hname : b.name = b'.name) : b = b' := by
  obtain ⟨bs, hbs, hb⟩ := h
  obtain ⟨bs', hbs', hb'⟩ := h'
  obtain rfl : bs = bs' := Except.ok.inj (hbs.symm.trans hbs')
  rcases classify_eq_ok hbs with (rfl | ⟨c, rfl, -⟩) | rfl
  · cases hb
  · rw [List.mem_singleton.mp hb, List.mem_singleton.mp hb']
  · exact (mem_dedupe_iff.mp hb).unique (mem_dedupe_iff.mp hb') hname

theorem Widens.mem_ofFunction (hwidens : Widens k k') {f : Function}
    (h : b ∈ k'.ofFunction line n depth f) : b ∈ k.ofFunction line n depth f := by
  by_cases hexempt : k'.isExempt f.params = true
  · rw [ofFunction_of_exempt hexempt] at h
    cases h
  · rwa [ofFunction_of_not_exempt (mt (hwidens.exempts _) hexempt) hexempt]

/-- A last binding stays the last of its name, unless its own function is exempted. -/
theorem Widens.isLast_or_exempt (hwidens : Widens k k') {fs : List Function}
    (h : IsLast (fs.flatMap (k.ofFunction line n depth)) b) :
    IsLast (fs.flatMap (k'.ofFunction line n depth)) b ∨
      ∃ f ∈ fs, b ∈ k.ofFunction line n depth f ∧ k'.isExempt f.params = true := by
  induction fs with
  | nil => exact .inl h
  | cons f rest ih =>
    rw [List.flatMap_cons] at h ⊢
    rcases isLast_append.mp h with hrest | ⟨hfirst, hlater⟩
    · rcases ih hrest with hkept | ⟨g, hg, hexempt⟩
      · exact .inl (isLast_append.mpr (.inl hkept))
      · exact .inr ⟨g, List.mem_cons_of_mem f hg, hexempt⟩
    · by_cases hexempt : k'.isExempt f.params = true
      · exact .inr ⟨f, List.mem_cons_self, hfirst.mem, hexempt⟩
      · rw [ofFunction_of_not_exempt (mt (hwidens.exempts _) hexempt) hexempt] at hfirst
        refine .inl (isLast_append.mpr (.inr ⟨hfirst, fun c hc => ?_⟩))
        obtain ⟨g, hg, hcg⟩ := List.mem_flatMap.mp hc
        exact hlater c (List.mem_flatMap.mpr ⟨g, hg, hwidens.mem_ofFunction hcg⟩)

/-- With more signatures a line still yields a binding, unless the binding's own function follows
one of them. -/
theorem Widens.yields_or_exempt (hwidens : Widens k k') (h : k.Yields line n depth lines b) :
    k'.Yields line n depth lines b ∨
      ∃ f ∈ functionsOn line, IsParam f b ∧ k'.isExempt f.params = true := by
  obtain ⟨bs, hbs, hb⟩ := h
  rcases classify_cases line with hsame | hfunctions
  · rw [hsame hwidens.rules] at hbs
    exact .inl ⟨bs, hbs, hb⟩
  · rw [hfunctions, Except.ok.injEq] at hbs
    subst hbs
    rcases hwidens.isLast_or_exempt (mem_dedupe_iff.mp hb) with hlast | ⟨f, hf, hbf, hexempt⟩
    · exact .inl ⟨_, hfunctions k' n depth lines, mem_dedupe_iff.mpr hlast⟩
    · exact .inr ⟨f, hf, (of_mem_ofFunction hbf).2, hexempt⟩

/-- More signatures bring no new name to a line. -/
theorem Widens.yields_name (hwidens : Widens k k') (h : k'.Yields line n depth lines b') :
    ∃ b, k.Yields line n depth lines b ∧ b.name = b'.name := by
  obtain ⟨bs, hbs, hb⟩ := h
  rcases classify_cases line with hsame | hfunctions
  · rw [← hsame hwidens.rules] at hbs
    exact ⟨b', ⟨bs, hbs, hb⟩, rfl⟩
  · rw [hfunctions, Except.ok.injEq] at hbs
    subst hbs
    obtain ⟨f, hf, hbf⟩ := List.mem_flatMap.mp (mem_of_mem_dedupe hb)
    obtain ⟨b, hlast, hname⟩ := exists_isLast
      (List.mem_flatMap.mpr ⟨f, hf, hwidens.mem_ofFunction hbf⟩)
    exact ⟨b, ⟨_, hfunctions k n depth lines, mem_dedupe_iff.mpr hlast⟩, hname⟩

end Classifier

end NullAccess
