import Mathlib.Data.List.Basic
import NullAccess.Proofs.Indent.Declarations
import NullAccess.Source.Comment
import NullAccess.Source.Parameter

/-!
# Parameter lists by stretches

A parameter list is a grammar: its commas are those outside brackets and quotation marks, and each
parameter is a name, a rest parameter or a pattern, with an annotation and a default (`ParamList`).
It is read another way: the text is cut at every comma, and every stretch between two commas is read
alone, as a name if it looks like one and has no `=` (`absentable?_eq_some_iff`).

The two agree parameter by parameter except where a parameter is misread (`Parameter.Misread`).  A
comma inside it makes stretches of their own of its inner text, and a name may stand in one of them;
and an `=` that is no default, or a default that is cut off, decides wrongly about its own name.
-/

namespace NullAccess

namespace Text

variable {p : Char → Bool} {sep c : Char} {t u w : List Char}

/-! ## The end of a text -/

theorem dropEndWhile_cons (hc : p c = false) (t : List Char) :
    dropEndWhile p (c :: t) = c :: dropEndWhile p t := by
  unfold dropEndWhile
  rw [List.reverse_cons, List.dropWhile_append]
  split
  · rename_i hempty
    rw [List.isEmpty_iff.mp hempty]
    simp [hc]
  · simp

/-- What is dropped at the end of a text are characters of the class. -/
theorem exists_dropEndWhile (p : Char → Bool) (t : List Char) :
    ∃ w, (∀ c ∈ w, p c = true) ∧ t = dropEndWhile p t ++ w := by
  refine ⟨(t.reverse.takeWhile p).reverse, fun c hc => ?_, ?_⟩
  · exact List.mem_takeWhile_imp (List.mem_reverse.mp hc)
  · rw [dropEndWhile, ← List.reverse_append, List.takeWhile_append_dropWhile, List.reverse_reverse]

theorem dropEndWhile_append (hw : ∀ c ∈ w, p c = true) (t : List Char) :
    dropEndWhile p (t ++ w) = dropEndWhile p t := by
  unfold dropEndWhile
  rw [List.reverse_append, List.dropWhile_append_of_pos]
  exact fun c hc => hw c (List.mem_reverse.mp hc)

theorem dropEndWhile_of_all_not (h : ∀ c ∈ t, p c = false) : dropEndWhile p t = t := by
  induction t with
  | nil => rfl
  | cons c r ih =>
    rw [dropEndWhile_cons (h c List.mem_cons_self), ih fun d hd => h d (List.mem_cons_of_mem c hd)]

theorem trim_cons (hc : isBlank c = false) (t : List Char) : trim (c :: t) = c :: trimRight t := by
  rw [trim, trimLeft_cons_of_not_blank t hc, trimRight, dropEndWhile_cons hc, trimRight]

theorem trim_pad_cons (hu : IsPad u) (hc : isBlank c = false) (t : List Char) :
    trim (u ++ c :: t) = c :: trimRight t := by
  rw [trim, trimLeft_pad hu, ← trim, trim_cons hc]

theorem trim_of_isInk (ht : IsInk t) : trim t = t := by
  obtain ⟨c, r, rfl⟩ := List.exists_cons_of_ne_nil ht.ne_nil
  rw [trim_cons (ht.not_blank c List.mem_cons_self), trimRight,
    dropEndWhile_of_all_not fun d hd => ht.not_blank d (List.mem_cons_of_mem c hd)]

theorem IsPad.not_mem (hu : IsPad u) (hc : isBlank c = false) : c ∉ u :=
  fun hmem => ne_of_isBlank (hu c hmem) hc rfl

theorem mem_trim_iff (hc : isBlank c = false) : c ∈ trim t ↔ c ∈ t := by
  obtain ⟨u, w, hu, hw, ht⟩ := exists_pads t
  conv_rhs => rw [ht, List.mem_append, List.mem_append]
  simp [hu.not_mem hc, hw.not_mem hc]

/-! ## Up to a separator -/

theorem takeWhile_ne_of_not_mem (h : sep ∉ t) (r : List Char) :
    (t ++ r).takeWhile (· != sep) = t ++ r.takeWhile (· != sep) := by
  refine List.takeWhile_append_of_pos fun c hc => ?_
  have hne : c ≠ sep := fun heq => h (heq ▸ hc)
  simpa using hne

theorem cutAt_fst (sep : Char) (t : List Char) : (cutAt sep t).1 = t.takeWhile (· != sep) := by
  induction t with
  | nil => rfl
  | cons c r ih =>
    by_cases hc : c = sep
    · simp [cutAt, hc]
    · simp [cutAt, hc, ih]

theorem splitOn_eq_cons (sep : Char) (t : List Char) :
    splitOn sep t = t.takeWhile (· != sep) :: (splitOn sep t).tail := by
  induction t with
  | nil => rfl
  | cons c r ih =>
    by_cases hc : c = sep
    · simp [splitOn, hc]
    · rw [splitOn, if_neg hc, ih]
      simp [hc]

end Text

namespace Source

open Text

section Stretch

variable {c : Char} {u w name raw : List Char} {x : String}

/-! ## Plain names -/

theorem not_mem_of_isPlainName (h : isPlainName name = true) (hstart : isNameStart c = false)
    (hchar : isNameChar c = false) : c ∉ name := by
  intro hmem
  cases name with
  | nil => cases h
  | cons d r =>
    obtain ⟨hd, hr⟩ := Bool.and_eq_true_iff.mp h
    rcases List.mem_cons.mp hmem with rfl | hmem
    · rw [hstart] at hd
      cases hd
    · rw [List.all_eq_true.mp hr c hmem] at hchar
      cases hchar

/-! ## One stretch -/

/-- The text that must be a plain name for a stretch to be read as one. -/
def soleName (t : List Char) : List Char :=
  trim (dropEndWhile (· == '?') (trim (cutAt ':' t).1))

theorem trim_cutAt_pads (hu : IsPad u) (hw : IsPad w) (t : List Char) :
    trim (cutAt ':' (u ++ t ++ w)).1 = trim (cutAt ':' t).1 := by
  have hcolon : isBlank ':' = false := by decide
  have hwall := takeWhile_ne_of_not_mem (hw.not_mem hcolon) []
  rw [cutAt_fst, cutAt_fst, List.append_assoc, takeWhile_ne_of_not_mem (hu.not_mem hcolon)]
  by_cases ht : ':' ∈ t
  · obtain ⟨front, back, rfl, hfront⟩ := List.eq_append_cons_of_mem ht
    have h := trim_pads hu isPad_nil front
    rw [List.append_assoc, takeWhile_ne_of_not_mem hfront, takeWhile_ne_of_not_mem hfront]
    simpa using h
  · have htall := takeWhile_ne_of_not_mem ht []
    have h := trim_pads hu hw t
    simp only [List.append_nil, List.takeWhile_nil] at hwall htall
    rwa [takeWhile_ne_of_not_mem ht, hwall, htall, ← List.append_assoc]

theorem soleName_trim (t : List Char) : soleName (trim t) = soleName t := by
  have hcut : trim (cutAt ':' (trim t)).1 = trim (cutAt ':' t).1 :=
    eq_of_pads (f := fun t => trim (cutAt ':' t).1) trim_cutAt_pads t
  rw [soleName, hcut, soleName]

/-- A stretch that begins as a rest parameter or a pattern keeps its beginning, so it is no name. -/
theorem not_isPlainName_soleName (hu : IsPad u) (hc : c ∈ ['.', '{', '[']) (t : List Char) :
    isPlainName (soleName (u ++ c :: t)) = false := by
  obtain ⟨hblank, hcolon, hmark, hstart⟩ : isBlank c = false ∧ c ≠ ':' ∧ (c == '?') = false ∧
      isNameStart c = false := by
    simp only [List.mem_cons, List.not_mem_nil, or_false] at hc
    rcases hc with rfl | rfl | rfl <;> decide
  have hcut : (cutAt ':' (c :: trimRight t)).1 = c :: (cutAt ':' (trimRight t)).1 := by
    rw [cutAt, if_neg hcolon]
  rw [← soleName_trim, trim_pad_cons hu hblank, soleName, hcut, trim_cons hblank,
    dropEndWhile_cons (p := (· == '?')) hmark, trim_cons hblank, isPlainName,
    hstart, Bool.false_and]

/-- The first two checks of a stretch pass whenever the last one does. -/
theorem passes_of_isPlainName (h : isPlainName (soleName raw) = true) :
    (trim raw).isEmpty = false ∧ "...".toList.isPrefixOf (trim raw) = false := by
  rw [← soleName_trim] at h
  constructor
  · cases htrim : trim raw with
    | nil =>
      rw [htrim] at h
      cases h
    | cons c r => rfl
  · cases hdots : "...".toList.isPrefixOf (trim raw) with
    | false => rfl
    | true =>
      obtain ⟨r, hr⟩ := List.isPrefixOf_iff_prefix.mp hdots
      have hnot := not_isPlainName_soleName isPad_nil (c := '.') (by decide) ('.' :: '.' :: r)
      rw [← hr] at h
      exact absurd h (by simpa using hnot)

theorem absentable?_eq_some_iff_soleName :
    absentable? raw = some x ↔
      '=' ∉ raw ∧ isPlainName (soleName raw) = true ∧ String.ofList (soleName raw) = x := by
  have hequals : '=' ∈ trim raw ↔ '=' ∈ raw := mem_trim_iff (by decide)
  have hread : absentable? raw =
      if (trim raw).isEmpty || "...".toList.isPrefixOf (trim raw) || (trim raw).contains '='
        then none
      else if isPlainName (soleName raw) then some (String.ofList (soleName raw)) else none := by
    rw [← soleName_trim raw]
    rfl
  rw [hread]
  constructor
  · intro h
    split at h
    · cases h
    · rename_i hgate
      simp only [Bool.or_eq_true, not_or, List.contains_iff_mem, hequals] at hgate
      split at h
      · rename_i hplain
        exact ⟨hgate.2, hplain, Option.some.inj h⟩
      · cases h
  · rintro ⟨hno, hplain, rfl⟩
    obtain ⟨hne, hdots⟩ := passes_of_isPlainName hplain
    have hcontains : (trim raw).contains '=' = false := by
      rw [← Bool.not_eq_true, List.contains_iff_mem, hequals]
      exact hno
    rw [hne, hdots, hcontains, hplain]
    rfl

/-- A text that holds a name and around it blanks, marks of being optional and an annotation. -/
inductive Around (name : List Char) : List Char → Prop
  | intro {lead gap marks gap' note} (hlead : IsPad lead) (hgap : IsPad gap)
      (hmarks : ∀ c ∈ marks, (c == '?') = true) (hgap' : IsPad gap')
      (hnote : ∀ c ∈ note.head?, c = ':') :
      Around name (lead ++ name ++ gap ++ marks ++ gap' ++ note)

/-- A stretch that is read as the name `x`: nothing but a plain name with what may stand around it,
and nowhere an `=`. -/
def ReadsAs (raw : List Char) (x : String) : Prop :=
  '=' ∉ raw ∧ ∃ name, isPlainName name = true ∧ Around name raw ∧ String.ofList name = x

/-- Of a name with marks behind it, once they are dropped, the name is left. -/
theorem trim_dropEndWhile_marks {gap marks : List Char} (hname : isPlainName name = true)
    (hgap : IsPad gap) (hmarks : ∀ c ∈ marks, (c == '?') = true) :
    trim (dropEndWhile (· == '?') (trim (name ++ gap ++ marks))) = name := by
  have hink := Classifier.isInk_of_isPlainName hname
  have hunmarked : ∀ c ∈ name ++ gap, (c == '?') = false := by
    intro c hc
    refine beq_false_of_ne fun heq => ?_
    rw [heq, List.mem_append] at hc
    exact hc.elim (not_mem_of_isPlainName hname (by decide) (by decide)) (hgap.not_mem (by decide))
  have hend : trim (name ++ gap) = name := by
    have h := trim_pads isPad_nil hgap name
    rwa [List.nil_append, trim_of_isInk hink] at h
  rcases List.eq_nil_or_concat marks with rfl | ⟨more, last, rfl⟩
  · rw [List.append_nil, hend,
      dropEndWhile_of_all_not fun c hc =>
        hunmarked c (List.mem_append_left gap hc), trim_of_isInk hink]
  · -- Behind a mark there is nothing to trim, and before it only the name.
    have hlast : last = '?' := by simpa using hmarks last (by simp)
    have htrim : trim (name ++ gap ++ more.concat last) = name ++ gap ++ more.concat last := by
      obtain ⟨c, r, rfl⟩ := List.exists_cons_of_ne_nil hink.ne_nil
      have h :=
        trim_of_ends (hink.not_blank c List.mem_cons_self) (d := last) (by rw [hlast]; decide)
        (r ++ gap ++ more)
      simpa using h
    rw [htrim, dropEndWhile_append hmarks, dropEndWhile_of_all_not hunmarked, hend]

theorem Around.soleName_eq (hname : isPlainName name = true) (h : Around name raw) :
    soleName raw = name := by
  obtain @⟨lead, gap, marks, gap', note, hlead, hgap, hmarks, hgap', hnote⟩ := h
  have hcolon : ':' ∉ lead ++ name ++ gap ++ marks ++ gap' := by
    have hmark : ':' ∉ marks := fun hmem => by simpa using hmarks ':' hmem
    simp [hlead.not_mem (c := ':') (by decide), hgap.not_mem (c := ':') (by decide),
      hgap'.not_mem (c := ':') (by decide), hmark,
      not_mem_of_isPlainName (c := ':') hname (by decide) (by decide)]
  have hstop : note.takeWhile (· != ':') = [] := by
    cases note with
    | nil => rfl
    | cons c r => simp [hnote c rfl]
  have hcut : (cutAt ':' (lead ++ name ++ gap ++ marks ++ gap' ++ note)).1 =
      lead ++ (name ++ gap ++ marks) ++ gap' := by
    rw [cutAt_fst, takeWhile_ne_of_not_mem hcolon, hstop]
    simp
  rw [soleName, hcut, trim_pads hlead hgap', trim_dropEndWhile_marks hname hgap hmarks]

theorem around_soleName (raw : List Char) : Around (soleName raw) raw := by
  obtain ⟨lead, gap', hlead, hgap', hcut⟩ := exists_pads (cutAt ':' raw).1
  obtain ⟨marks, hmarks, hdrop⟩ := exists_dropEndWhile (· == '?') (trim (cutAt ':' raw).1)
  obtain ⟨lead', gap, hlead', hgap, hname⟩ :=
    exists_pads (dropEndWhile (· == '?') (trim (cutAt ':' raw).1))
  have hnote : ∀ c ∈ (raw.dropWhile (· != ':')).head?, c = ':' := by
    intro c hc
    have hstop := List.head?_dropWhile_not (· != ':') raw
    rw [Option.mem_def.mp hc] at hstop
    simpa using hstop
  have hraw : raw = lead ++ lead' ++ soleName raw ++ gap ++ marks ++ gap' ++
      raw.dropWhile (· != ':') := by
    have hsplit : (cutAt ':' raw).1 ++ raw.dropWhile (· != ':') = raw := by
      rw [cutAt_fst, List.takeWhile_append_dropWhile]
    conv_lhs => rw [← hsplit, hcut, hdrop, hname]
    simp [soleName]
  have hpad : IsPad (lead ++ lead') := List.forall_mem_append.mpr ⟨hlead, hlead'⟩
  have h : Around (soleName raw) (lead ++ lead' ++ soleName raw ++ gap ++ marks ++ gap' ++
      raw.dropWhile (· != ':')) := .intro hpad hgap hmarks hgap' hnote
  rwa [← hraw] at h

theorem absentable?_eq_some_iff : absentable? raw = some x ↔ ReadsAs raw x := by
  rw [absentable?_eq_some_iff_soleName]
  constructor
  · rintro ⟨hno, hplain, hx⟩
    exact ⟨hno, _, hplain, around_soleName raw, hx⟩
  · rintro ⟨hno, name, hplain, haround, hx⟩
    rw [haround.soleName_eq hplain]
    exact ⟨hno, hplain, hx⟩

theorem absentable?_of_start (hu : IsPad u) (hc : c ∈ ['.', '{', '[']) (t : List Char) :
    absentable? (u ++ c :: t) = none := by
  rw [Option.eq_none_iff_forall_ne_some]
  intro x h
  have hplain := (absentable?_eq_some_iff_soleName.mp h).2.1
  rw [not_isPlainName_soleName hu hc] at hplain
  cases hplain

theorem absentable?_of_mem (h : '=' ∈ raw) : absentable? raw = none := by
  rw [Option.eq_none_iff_forall_ne_some]
  intro x hx
  exact (absentable?_eq_some_iff_soleName.mp hx).1 h

theorem absentable?_of_isPad (hu : IsPad u) : absentable? u = none := by
  rw [absentable?, trim_of_isPad hu]
  rfl

end Stretch

/-! ## The grammar -/

/-- A quotation from behind the mark `q` that opens it up to the one that closes it. -/
inductive Quoted (q : Char) : List Char → Prop
  | close : Quoted q [q]
  | char {c t} (hq : c ≠ q) (hc : c ≠ '\\') (h : Quoted q t) : Quoted q (c :: t)
  | escape {c t} (h : Quoted q t) : Quoted q ('\\' :: c :: t)

/-- A bracket and the one that closes it. -/
def isPair (o c : Char) : Bool :=
  (o, c) ∈ [('(', ')'), ('[', ']'), ('{', '}'), ('<', '>')]

/-- No quotation mark, and no bracket that is always one: `<` and `>` also compare. -/
def isLoose (c : Char) : Bool := !isQuote c && c ∉ ['(', ')', '[', ']', '{', '}']

/-- Text in which every bracket and every quotation is closed, with characters of the class `outer`
outside them.  An arrow may stand there whether or not the class has its `=`. -/
inductive Closed : (Char → Bool) → List Char → Prop
  | nil {outer} : Closed outer []
  | char {outer c t} (hloose : isLoose c = true) (hc : outer c = true) (h : Closed outer t) :
      Closed outer (c :: t)
  | arrow {outer t} (h : Closed outer t) : Closed outer ('=' :: '>' :: t)
  | quoted {outer q s t} (hq : isQuote q = true) (hs : Quoted q s) (h : Closed outer t) :
      Closed outer (q :: s ++ t)
  | nested {outer o c s t} (hpair : isPair o c = true) (hs : Closed (fun _ => true) s)
      (h : Closed outer t) : Closed outer (o :: s ++ c :: t)

theorem closed_of_loose {outer : Char → Bool} {t : List Char}
    (h : t.all (fun c => isLoose c && outer c) = true) : Closed outer t := by
  induction t with
  | nil => exact .nil
  | cons c r ih =>
    simp only [List.all_cons, Bool.and_eq_true] at h
    exact .char h.1.1 h.1.2 (ih h.2)

/-- What a parameter binds: a name, what is left over of the arguments, or what a pattern takes
apart. -/
inductive Head
  | name (n : List Char) (plain : isPlainName n = true)
  | rest (target : List Char) (closed : Closed (· ∉ [',', ':', '=']) target)
  | pattern (o c : Char) (inner : List Char) (opens : o ∈ ['{', '[']) (pair : isPair o c = true)
      (closed : Closed (fun _ => true) inner)

/-- A parameter: what it binds, a mark of being optional, an annotation and a default, each of the
last three if it is there with the text behind its sign. -/
structure Parameter where
  lead : List Char
  head : Head
  gap : List Char
  mark : Option (List Char)
  annotation : Option (List Char)
  default : Option (List Char)
  isPad_lead : IsPad lead
  isPad_gap : IsPad gap
  isPad_mark : ∀ w ∈ mark, IsPad w
  annotation_closed : ∀ t ∈ annotation, Closed (· ∉ [',', '=', '<', '>']) t
  default_closed : ∀ t ∈ default, Closed (· ≠ ',') t
  default_not_arrow : ∀ t ∈ default, t.head? ≠ some '>'

/-- A part that may be missing, behind its sign. -/
def signed (sign : Char) : Option (List Char) → List Char
  | none => []
  | some t => sign :: t

def Head.text : Head → List Char
  | .name n _ => n
  | .rest target _ => '.' :: '.' :: '.' :: target
  | .pattern o c inner _ _ _ => o :: inner ++ [c]

namespace Parameter

/-- The annotation and the default, as they are written. -/
def extras (p : Parameter) : List Char := signed ':' p.annotation ++ signed '=' p.default

def text (p : Parameter) : List Char :=
  p.lead ++ p.head.text ++ p.gap ++ signed '?' p.mark ++ p.extras

/-- The name of a parameter that may be absent: one that binds a name and has no default. -/
def absentName? (p : Parameter) : Option String :=
  match p.head, p.default with
  | .name n _, none => some (String.ofList n)
  | _, _ => none

end Parameter

/-- A text as a list of parameters with commas between them, or behind each of them. -/
inductive ParamList : List Char → List Parameter → Prop
  | blank {t} (ht : IsPad t) : ParamList t []
  | last (p : Parameter) : ParamList p.text [p]
  | cons {t ps} (p : Parameter) (h : ParamList t ps) :
      ParamList (p.text ++ ',' :: t) (p :: ps)

/-! ## What is read of a parameter -/

namespace Parameter

variable {p : Parameter} {name : List Char}

/-- The text of a parameter up to the first comma in it. -/
def first (p : Parameter) : List Char := p.text.takeWhile (· != ',')

/-- The stretches of a parameter behind its first comma. -/
def later (p : Parameter) : List (List Char) := (splitOn ',' p.text).tail

/-- The parameter's own name as it is read: there if no `=` stands before the first comma. -/
def own? (p : Parameter) : Option String :=
  match p.head with
  | .name n _ => if '=' ∈ p.first then none else some (String.ofList n)
  | _ => none

/-- The names that are read in the later stretches. -/
def strays (p : Parameter) : List String := p.later.filterMap absentable?

/-- The ways in which a parameter is misread. -/
inductive Misread (p : Parameter) : Prop
  /-- A stretch behind a comma inside the parameter is read as a name. -/
  | stray {s x} (hs : s ∈ p.later) (h : ReadsAs s x)
  /-- A name without a default is lost to an `=` in its annotation. -/
  | lost {n hn t} (hhead : p.head = .name n hn) (hdefault : p.default = none)
    (ht : t ∈ p.annotation)
      (h : '=' ∈ t.takeWhile (· != ','))
  /-- A name with a default is kept for a comma in its annotation, which cuts the default off. -/
  | kept {n hn t} (hhead : p.head = .name n hn) (hdefault : p.default ≠ none)
    (ht : t ∈ p.annotation)
      (hcomma : ',' ∈ t) (h : '=' ∉ t.takeWhile (· != ','))

/-- What stands before the annotation and the default of a name has neither sign. -/
theorem not_mem_stem {c : Char} (hn : isPlainName name = true) (hc : c ∈ [',', '=']) :
    c ∉ p.lead ++ name ++ p.gap ++ signed '?' p.mark := by
  obtain ⟨hblank, hmark, hstart, hchar⟩ : isBlank c = false ∧ c ≠ '?' ∧ isNameStart c = false ∧
      isNameChar c = false := by
    simp only [List.mem_cons, List.not_mem_nil, or_false] at hc
    rcases hc with rfl | rfl <;> decide
  have hsigned : c ∉ signed '?' p.mark := by
    cases hw : p.mark with
    | none => exact List.not_mem_nil
    | some w => simpa [signed, hmark] using (p.isPad_mark w hw).not_mem hblank
  simp [p.isPad_lead.not_mem hblank, p.isPad_gap.not_mem hblank, hsigned,
    not_mem_of_isPlainName hn hstart hchar]

theorem first_of_name {hn : isPlainName name = true} (hhead : p.head = .name name hn) :
    p.first = p.lead ++ name ++ p.gap ++ signed '?' p.mark ++ p.extras.takeWhile (· != ',') := by
  rw [first, text, hhead, Head.text, takeWhile_ne_of_not_mem (not_mem_stem hn (by decide))]

/-- A name's first stretch has an `=` if the annotation has one before its first comma, or if there
is a default that no comma of the annotation cuts off. -/
theorem equals_mem_first_iff {hn : isPlainName name = true} (hhead : p.head = .name name hn) :
    '=' ∈ p.first ↔ (∃ t ∈ p.annotation, '=' ∈ t.takeWhile (· != ',')) ∨
      p.default ≠ none ∧ ∀ t ∈ p.annotation, ',' ∉ t := by
  have hstem := not_mem_stem (p := p) hn (c := '=') (by decide)
  rw [first_of_name hhead, List.mem_append, or_iff_right hstem, extras]
  cases p.annotation with
  | none => cases p.default <;> simp [signed]
  | some t =>
    cases p.default with
    | none => simp [signed]
    | some d =>
      by_cases ht : ',' ∈ t
      · obtain ⟨front, back, rfl, hfront⟩ := List.eq_append_cons_of_mem ht
        simp [signed, takeWhile_ne_of_not_mem hfront]
      · simp [signed, takeWhile_ne_of_not_mem ht, ht]

/-- A name's first stretch that has no `=` ends with the annotation or a part of it. -/
theorem head?_extras_of_not_mem {hn : isPlainName name = true} (hhead : p.head = .name name hn)
    (h : '=' ∉ p.first) : ∀ c ∈ (p.extras.takeWhile (· != ',')).head?, c = ':' := by
  rw [equals_mem_first_iff hhead] at h
  unfold extras
  cases ht : p.annotation with
  | some t => simp [signed]
  | none =>
    cases hd : p.default with
    | none => simp [signed]
    | some d => simp [ht, hd] at h

theorem around_first {hn : isPlainName name = true} (hhead : p.head = .name name hn)
    (h : '=' ∉ p.first) : Around name p.first := by
  have hnote := head?_extras_of_not_mem hhead h
  rw [first_of_name hhead]
  cases hw : p.mark with
  | none =>
    have h : Around name (p.lead ++ name ++ p.gap ++ [] ++ [] ++ p.extras.takeWhile (· != ',')) :=
      .intro p.isPad_lead p.isPad_gap nofun isPad_nil hnote
    simpa [signed] using h
  | some w =>
    have h : Around name (p.lead ++ name ++ p.gap ++ ['?'] ++ w ++ p.extras.takeWhile (· != ',')) :=
      .intro p.isPad_lead p.isPad_gap (by simp) (p.isPad_mark w hw) hnote
    simpa [signed] using h

/-- A rest parameter and a pattern show in their first character. -/
theorem exists_start (hhead : ∀ n hn, p.head ≠ .name n hn) :
    ∃ c r, c ∈ ['.', '{', '['] ∧ p.text = p.lead ++ c :: r := by
  cases hkind : p.head with
  | name n hn => exact absurd hkind (hhead n hn)
  | rest target _ => exact ⟨'.', _, by decide, by simp [text, hkind, Head.text]; rfl⟩
  | pattern o c inner ho _ _ =>
    exact ⟨o, _, List.mem_cons_of_mem '.' ho, by simp [text, hkind, Head.text]; rfl⟩

theorem absentable?_first (p : Parameter) : absentable? p.first = p.own? := by
  unfold own?
  split
  · rename_i n hn hhead
    split
    · rename_i h
      exact absentable?_of_mem h
    · rename_i h
      exact absentable?_eq_some_iff.mpr ⟨h, n, hn, around_first hhead h, rfl⟩
  · rename_i hhead
    obtain ⟨c, r, hc, htext⟩ := exists_start hhead
    have hne : c ≠ ',' := by
      rintro rfl
      revert hc
      decide
    have hlead : ',' ∉ p.lead := p.isPad_lead.not_mem (by decide)
    rw [first, htext, takeWhile_ne_of_not_mem hlead,
      List.takeWhile_cons_of_pos (by simpa using hne)]
    exact absentable?_of_start p.isPad_lead hc _

theorem absentableParams_text (p : Parameter) :
    absentableParams p.text = p.own?.toList ++ p.strays := by
  rw [absentableParams, splitOn_eq_cons, List.filterMap_cons, ← first, absentable?_first, ← later,
    ← strays]
  cases p.own? <;> rfl

theorem strays_ne_nil_iff : p.strays ≠ [] ↔ ∃ s ∈ p.later, ∃ x, ReadsAs s x := by
  rw [strays, Ne, List.filterMap_eq_nil_iff]
  simp only [not_forall, exists_prop, ← absentable?_eq_some_iff, ← Option.ne_none_iff_exists', Ne]

/-- A name is read right iff its first stretch tells its default. -/
theorem own?_ne_iff {hn : isPlainName name = true} (hhead : p.head = .name name hn) :
    p.own? ≠ p.absentName? ↔ ('=' ∈ p.first ↔ p.default = none) := by
  rw [own?, absentName?, hhead]
  by_cases h : '=' ∈ p.first <;> cases p.default <;> simp [h]

theorem misread_iff (p : Parameter) : p.Misread ↔ p.own? ≠ p.absentName? ∨ p.strays ≠ [] := by
  rw [strays_ne_nil_iff]
  constructor
  · intro h
    cases h with
    | stray hs h => exact .inr ⟨_, hs, _, h⟩
    | lost hhead hdefault ht h =>
      rw [own?_ne_iff hhead, equals_mem_first_iff hhead]
      exact .inl ⟨fun _ => hdefault, fun _ => .inl ⟨_, ht, h⟩⟩
    | kept hhead hdefault ht hcomma h =>
      rw [own?_ne_iff hhead, equals_mem_first_iff hhead]
      refine .inl ⟨?_, fun hnone => absurd hnone hdefault⟩
      rintro (⟨t', ht', h'⟩ | ⟨-, hall⟩)
      · cases Option.mem_unique ht ht'
        exact absurd h' h
      · exact absurd hcomma (hall _ ht)
  · rintro (h | ⟨s, hs, x, h⟩)
    · cases hhead : p.head with
      | name n hn =>
        rw [own?_ne_iff hhead, equals_mem_first_iff hhead] at h
        by_cases hdefault : p.default = none
        · obtain ⟨t, ht, hmem⟩ | ⟨hsome, -⟩ := h.mpr hdefault
          · exact .lost hhead hdefault ht hmem
          · exact absurd hdefault hsome
        · have hno := mt h.mp hdefault
          simp only [not_or, not_and, not_forall, not_exists, Decidable.not_not] at hno
          obtain ⟨t, ht, hcomma⟩ := hno.2 hdefault
          exact .kept hhead hdefault ht hcomma (hno.1 t ht)
      | rest | pattern => simp [own?, absentName?, hhead] at h
    · exact .stray hs h

/-- Without a comma of its own and without an `=` in its annotation a parameter is read right. -/
theorem not_misread_of_flat (hcomma : ',' ∉ p.text) (hplain : ∀ t ∈ p.annotation, '=' ∉ t) :
    ¬ p.Misread := by
  intro h
  cases h with
  | stray hs h => simp [later, splitOn_of_not_mem hcomma] at hs
  | lost _ _ ht h => exact hplain _ ht (List.takeWhile_subset _ h)
  | kept hhead hdefault ht hmem h =>
    refine hcomma ?_
    rw [text, extras, Option.mem_def.mp ht]
    simp [signed, hmem]

end Parameter

/-! ## The whole list -/

theorem absentableParams_append (t r : List Char) :
    absentableParams (t ++ ',' :: r) = absentableParams t ++ absentableParams r := by
  rw [absentableParams, splitOn_append, List.filterMap_append, absentableParams, absentableParams]

/-- A list is read parameter by parameter, each by its stretches. -/
theorem ParamList.read {t : List Char} {ps : List Parameter} (h : ParamList t ps) :
    absentableParams t = ps.flatMap fun p => p.own?.toList ++ p.strays := by
  induction h with
  | blank ht =>
    rw [absentableParams, splitOn_of_not_mem (ht.not_mem (by decide)),
      List.filterMap_cons_none (absentable?_of_isPad ht)]
    rfl
  | last p => rw [Parameter.absentableParams_text, List.flatMap_singleton]
  | cons p h ih =>
    rw [absentableParams_append, Parameter.absentableParams_text, ih, List.flatMap_cons]

/-- Of a parameter list the names that may be absent are returned, in order, unless a parameter is
misread.  In general each parameter gives its own name if its first stretch shows no `=`, and then
every name that a later stretch of it is read as; it is misread iff this is not the name that may be
absent, or if there are such later names. -/
theorem params_read_by_stretches {t : List Char} {ps : List Parameter} (h : ParamList t ps) :
    (absentableParams t = ps.flatMap fun p => p.own?.toList ++ p.strays) ∧
    (∀ p ∈ ps, p.Misread ↔ p.own? ≠ p.absentName? ∨ p.strays ≠ []) ∧
    ((∀ p ∈ ps, ¬ p.Misread) → absentableParams t = ps.filterMap Parameter.absentName?) := by
  refine ⟨h.read, fun p _ => p.misread_iff, fun hright => ?_⟩
  rw [h.read, List.filterMap_eq_flatMap_toList]
  refine List.flatMap_congr fun p hp => ?_
  have hsame := mt p.misread_iff.mpr (hright p hp)
  rw [not_or, Decidable.not_not, Decidable.not_not] at hsame
  rw [hsame.1, hsame.2, List.append_nil]

/-- The parameter `user?: User`. -/
def optionalUser : Parameter where
  lead := []
  head := .name "user".toList (by decide)
  gap := []
  mark := some []
  annotation := some " User".toList
  default := none
  isPad_lead := isPad_nil
  isPad_gap := isPad_nil
  isPad_mark := by
    rintro w ⟨⟩
    exact isPad_nil
  annotation_closed := by
    rintro t ⟨⟩
    exact closed_of_loose (by decide)
  default_closed := nofun
  default_not_arrow := nofun

/-- The parameter `opts = {}`, behind a blank. -/
def defaultedOpts : Parameter where
  lead := [' ']
  head := .name "opts".toList (by decide)
  gap := [' ']
  mark := none
  annotation := none
  default := some [' ', '{', '}']
  isPad_lead := isPad_blank
  isPad_gap := isPad_blank
  isPad_mark := nofun
  annotation_closed := nofun
  default_closed := by
    rintro t ⟨⟩
    exact .char (by decide) (by decide) (.nested (s := []) (by decide) .nil .nil)
  default_not_arrow := by
    rintro t ⟨⟩
    decide

theorem params_read_by_stretches_sample :
    ParamList "user?: User, opts = \x7b\x7d".toList [optionalUser, defaultedOpts] ∧
    absentableParams "user?: User, opts = \x7b\x7d".toList = ["user"] := by
  have hlist : ParamList "user?: User, opts = \x7b\x7d".toList [optionalUser, defaultedOpts] :=
    .cons optionalUser (.last defaultedOpts)
  refine ⟨hlist, (params_read_by_stretches hlist).2.2 ?_⟩
  have huser : ¬ optionalUser.Misread :=
    Parameter.not_misread_of_flat (by decide) (by rintro t ⟨⟩; decide)
  have hopts : ¬ defaultedOpts.Misread := Parameter.not_misread_of_flat (by decide) nofun
  simp [huser, hopts]

/-- The parameter `{ a, b, c }`. -/
def patternOfThree : Parameter where
  lead := []
  head := .pattern '{' '}' " a, b, c ".toList (by decide) (by decide) (closed_of_loose (by decide))
  gap := []
  mark := none
  annotation := none
  default := none
  isPad_lead := isPad_nil
  isPad_gap := isPad_nil
  isPad_mark := nofun
  annotation_closed := nofun
  default_closed := nofun
  default_not_arrow := nofun

/-- A name between the commas of a pattern is returned. -/
theorem name_in_pattern_returned :
    ParamList "\x7b a, b, c \x7d".toList [patternOfThree] ∧
    [patternOfThree].filterMap Parameter.absentName? = [] ∧
    absentableParams "\x7b a, b, c \x7d".toList = ["b"] :=
  ⟨.last patternOfThree, rfl, by decide⟩

end Source

end NullAccess
