import NullAccess.Proofs.Marker.Mention

/-!
# Notices

A notice is what a consumer marker says: a category, a reason, dependencies and an id.  The tags are
tried in a fixed order on each of its lines, and a match may begin anywhere.  A line that was
written for one tag is read for that tag alone, because every tag begins with a sign that does not
come again; in a reason it may, and there it is the tag that is tried first that must not occur.  So
the lines of a notice are read one by one, and the whole of it comes out as it went in
(`Notice.readConsumers_lines`).  The exception is a dependency in a line whose number has too many
digits.
-/

namespace NullAccess.Marker

open Text Pattern

variable {c : ConsumerMarker} {before block rest : List Line} {texts : List (List Char)}

/-! ## Tags -/

theorem opens_ignoreTag : Opens ('@' :: "validation-ignore".toList) ignoreTag :=
  ((opens_lit "@validation-ignore").left _).left _

theorem opens_reasonTag : Opens ('@' :: "reason:".toList) reasonTag :=
  ((opens_lit "@reason:").left _).left _

theorem opens_dependencyTag : Opens ('@' :: "dependency:".toList) dependencyTag := by
  intro s u hu
  rw [ends_dependencyTag] at hu
  exact (((((opens_lit "@dependency:").left _).left _).left _).left _).left _ s u hu

theorem opens_whitelistIdTag : Opens ('@' :: "whitelist-id:".toList) whitelistIdTag :=
  ((opens_lit "@whitelist-id:").left _).left _

/-- A line with its tag, a blank and what the tag is about. -/
def tagged (tag : String) (t : List Char) : List Char := tag.toList ++ ([' '] ++ t)

theorem trim_tagged {tag : String} {t : List Char} (hne : tag.toList ≠ [])
    (htag : ∀ c ∈ tag.toList.head?, isBlank c = false) (ht : t ≠ [])
    (hlast : ∀ c ∈ t.getLast?, isBlank c = false) : trim (tagged tag t) = tagged tag t := by
  refine trim_of_ends_inked (List.append_ne_nil_of_left_ne_nil hne _) ?_ ?_
  · rwa [tagged, List.head?_append_of_ne_nil _ hne]
  · rwa [tagged, ← List.append_assoc, List.getLast?_append_of_ne_nil _ ht]

theorem rejectsBlanks_isIdChar : rejectsBlanks isIdChar = true := by
  rw [rejectsBlanks_iff]
  intro c hc
  rw [isIdChar, isWord_of_isBlank hc, Bool.false_or]
  simpa using ne_of_isBlank hc (by decide)

/-- A category or the name of an entry. -/
structure Label where
  chars : List Char
  nonempty : chars ≠ []
  admissible : ∀ c ∈ chars, isIdChar c = true

namespace Label

variable (l : Label)

theorem not_blank : ∀ c ∈ l.chars, isBlank c = false :=
  fun c hc => not_blank_of_rejectsBlanks rejectsBlanks_isIdChar (l.admissible c hc)

theorem not_blank_first : ∀ c ∈ l.chars.head?, isBlank c = false :=
  fun c hc => l.not_blank c (List.mem_of_head? hc)

theorem not_blank_last : ∀ c ∈ l.chars.getLast?, isBlank c = false :=
  fun c hc => l.not_blank c (List.mem_of_getLast? hc)

theorem not_mem {c : Char} (hc : isIdChar c = false) : c ∉ l.chars := by
  intro hmem
  rw [l.admissible c hmem] at hc
  cases hc

end Label

/-! ## Reading one line -/

theorem readConsumer_category (l : Label) :
    readConsumer c (tagged "@validation-ignore" l.chars) =
      .ok { c with found := true, category := some (String.ofList l.chars) } := by
  obtain ⟨m, hm, hgroup⟩ := exists_find?_tag (n := 1) (v := "@validation-ignore") (a := gap)
    (head?_ends_gap isPad_blank (List.cons_ne_nil _ _) l.not_blank_first · [])
      l.nonempty l.admissible
  have hfind : ignoreTag.find? (tagged "@validation-ignore" l.chars) = some m := hm
  simp only [readConsumer, hfind, hgroup]

/-- A reason, as it can be written. -/
structure Reason where
  chars : List Char
  nonempty : chars ≠ []
  line : '\n' ∉ chars
  first : ∀ c ∈ chars.head?, isBlank c = false
  last : ∀ c ∈ chars.getLast?, isBlank c = false
  untagged : ¬ "@validation-ignore".toList <:+: chars

theorem readConsumer_reason (r : Reason) :
    readConsumer c (tagged "@reason:" r.chars) =
      .ok { c with reason := some (String.ofList r.chars) } := by
  have hchars : ∀ c ∈ r.chars, (c != '\n') = true := by
    intro c hc
    simpa using fun heq : c = '\n' => r.line (heq ▸ hc)
  obtain ⟨m, hm, hgroup⟩ := exists_find?_tag (n := 1) (v := "@reason:") (a := blanks)
    (head?_ends_blanks isPad_blank r.first · []) r.nonempty hchars
  have hignore : ignoreTag.find? (tagged "@reason:" r.chars) = none := by
    refine opens_ignoreTag.find? fun hinfix => r.untagged ?_
    rcases List.infix_cons_iff.mp hinfix with hhere | hlater
    · obtain ⟨x, hx⟩ := hhere
      cases hx
    · exact isInfix_of_not_mem (r := "reason: ".toList) (by decide) hlater
  have hfind : reasonTag.find? (tagged "@reason:" r.chars) = some m := hm
  simp only [readConsumer, hignore, hfind, hgroup, trim_of_ends_inked r.nonempty r.first r.last]

theorem readConsumer_id (l : Label) :
    readConsumer c (tagged "@whitelist-id:" l.chars) =
      .ok { c with whitelistId := some (String.ofList l.chars) } := by
  obtain ⟨m, hm, hgroup⟩ := exists_find?_tag (n := 1) (v := "@whitelist-id:") (a := blanks)
    (head?_ends_blanks isPad_blank l.not_blank_first · []) l.nonempty l.admissible
  have hat : '@' ∉ "whitelist-id: ".toList ++ l.chars := by
    rw [List.mem_append, not_or]
    exact ⟨by decide, l.not_mem (by decide)⟩
  have hignore : ignoreTag.find? (tagged "@whitelist-id:" l.chars) = none :=
    opens_ignoreTag.find?_cons hat (by rintro ⟨x, hx⟩; cases hx)
  have hreason : reasonTag.find? (tagged "@whitelist-id:" l.chars) = none :=
    opens_reasonTag.find?_cons hat (by rintro ⟨x, hx⟩; cases hx)
  have hdependency : dependencyTag.find? (tagged "@whitelist-id:" l.chars) = none :=
    opens_dependencyTag.find?_cons hat (by rintro ⟨x, hx⟩; cases hx)
  have hfind : whitelistIdTag.find? (tagged "@whitelist-id:" l.chars) = some m := hm
  simp only [readConsumer, hignore, hreason, hdependency, hfind, hgroup]

theorem FilePart.not_mem_text {f : FilePart} {c : Char} (hfixed : c ∉ " [in ]".toList)
    (hf : c ∉ f.name) : c ∉ f.text := by
  cases f with
  | absent => exact List.not_mem_nil
  | bracketed file =>
    show c ∉ " [in ".toList ++ (file ++ [']'])
    rw [List.mem_append, List.mem_append, not_or, not_or]
    exact ⟨fun h => hfixed (List.mem_append_left [']'] h), hf,
      fun h => hfixed (List.mem_append_right " [in ".toList h)⟩
  | bare file =>
    have hin : " in ".toList ⊆ " [in ]".toList := by decide
    show c ∉ " in ".toList ++ file
    rw [List.mem_append, not_or]
    exact ⟨fun h => hfixed (hin h), hf⟩

namespace Mention

variable (d : Mention)

theorem not_mem_tail {c : Char} {t : List Char} (hfixed : c ∉ "dependency: () at line ".toList)
    (hname : (isNameChar c || c == '.') = false) (hdecimal : isDecimal c = false) (ht : c ∉ t) :
    c ∉ "dependency: ".toList ++ (d.function ++ (d.call ++
      (" at line ".toList ++ (Nat.toDigits 10 d.line ++ t)))) := by
  have hlead : "dependency: ".toList ⊆ "dependency: () at line ".toList := by decide
  have hplace : " at line ".toList ⊆ "dependency: () at line ".toList := by decide
  have hparens : "()".toList ⊆ "dependency: () at line ".toList := by decide
  have hfunction : c ∉ d.function := by
    intro hmem
    rw [d.function_admissible c hmem] at hname
    cases hname
  have hcall : c ∉ d.call := by
    unfold call
    split
    · exact fun h => hfixed (hparens h)
    · exact List.not_mem_nil
  have hdigits : c ∉ Nat.toDigits 10 d.line := by
    intro hmem
    rw [isDecimal_of_mem_toDigits hmem] at hdecimal
    cases hdecimal
  simp only [List.mem_append, not_or]
  exact ⟨fun h => hfixed (hlead h), hfunction, hcall, fun h => hfixed (hplace h), hdigits, ht⟩

theorem at_not_mem_tail : '@' ∉ "dependency: ".toList ++ (d.function ++ (d.call ++
    (" at line ".toList ++ (Nat.toDigits 10 d.line ++ trimRight d.file.text)))) := by
  refine d.not_mem_tail (by decide) (by decide) (by decide) fun hmem => ?_
  exact FilePart.not_mem_text (by decide) (fun hname => (d.file_admissible '@' hname).2.2 rfl)
    (mem_of_mem_trimRight hmem)

theorem lf_not_mem_text : '\n' ∉ d.text := by
  have htail := d.not_mem_tail (c := '\n') (t := d.file.text) (by decide) (by decide)
    (by decide) (FilePart.not_mem_text (by decide) fun hname =>
      absurd (d.file_admissible '\n' hname).1 (by decide))
  have htext : d.text = '@' :: ("dependency: ".toList ++ (d.function ++ (d.call ++
      (" at line ".toList ++ (Nat.toDigits 10 d.line ++ d.file.text))))) := by
    unfold text lead
    generalize Nat.toDigits 10 d.line = digits
    simp only [List.append_assoc]
    rfl
  rw [htext, List.mem_cons, not_or]
  exact ⟨by decide, htail⟩

/-- The number of the line is asked for, and it has too many digits. -/
def TooLong : Prop := d.function ≠ [] ∧ isWritable d.line = false

/-- Of the other tags none stands in the text. -/
theorem find?_eq_none {a : Pattern} {w : List Char} (h : Opens ('@' :: w) a)
    (hw : ∀ r, ¬ w <+: "dependency: ".toList ++ r) : a.find? (trim d.text) = none := by
  rw [trim_text_eq]
  exact h.find?_cons d.at_not_mem_tail (hw _)

theorem readConsumer_text :
    readConsumer c (trim d.text) =
      match dependencyTag.find? (trim d.text) with
      | some m => (dependencyOf m).map fun r => { c with dependencies := c.dependencies ++ [r] }
      | none => .ok c := by
  have hignore := d.find?_eq_none opens_ignoreTag (by rintro r ⟨x, hx⟩; cases hx)
  have hreason := d.find?_eq_none opens_reasonTag (by rintro r ⟨x, hx⟩; cases hx)
  have hid := d.find?_eq_none opens_whitelistIdTag (by rintro r ⟨x, hx⟩; cases hx)
  cases hdependency : dependencyTag.find? (trim d.text) with
  | some m => simp only [readConsumer, hignore, hreason, hdependency]
  | none => simp only [readConsumer, hignore, hreason, hdependency, hid]

theorem readConsumer_of_tooLong (h : d.TooLong) :
    readConsumer c (trim d.text) = .error .longNumeral := by
  obtain ⟨m, hm, -, hdigits, -⟩ := d.exists_find? h.1
  have hnumeral : readNumeral? (m.group 2) = none := by
    rw [hdigits, readNumeral?_toDigits, h.2]
    rfl
  rw [readConsumer_text, hm]
  simp only [dependencyOf, hnumeral]
  rfl

theorem readConsumer_of_not_tooLong (h : ¬ d.TooLong) :
    readConsumer c (trim d.text) =
      .ok { c with dependencies := c.dependencies ++ d.ref?.toList } := by
  by_cases hnil : d.function = []
  · have hnone : dependencyTag.find? (trim d.text) = none := by
      have hends := d.ends_eq_nil_of_unnamed hnil
      rw [trim_text_eq] at hends ⊢
      exact opens_dependencyTag.find?_of_ends d.at_not_mem_tail hends
    rw [readConsumer_text, hnone, ref?, if_pos hnil, Option.toList_none, List.append_nil]
  · obtain ⟨m, hm, hfunction, hdigits, hfile⟩ := d.exists_find? hnil
    have hwritable : isWritable d.line = true := by
      rw [← Bool.not_eq_false]
      exact fun hlong => h ⟨hnil, hlong⟩
    have hnumeral : readNumeral? (m.group 2) = some d.line := by
      rw [hdigits, readNumeral?_toDigits, hwritable]
      rfl
    rw [readConsumer_text, hm, ref?, if_neg hnil]
    simp only [dependencyOf, hnumeral, hfunction, hfile]
    rfl

end Mention

theorem exists_mention (n : Nat) :
    ∃ d : Mention, d.function ≠ [] ∧ d.line = n ∧
      d.text = "@dependency: load at line ".toList ++ Nat.toDigits 10 n := by
  have htext : ∀ digits : List Char, "@dependency: ".toList ++ ("load".toList ++
      ([] ++ (" at line ".toList ++ digits))) ++ [] =
        "@dependency: load at line ".toList ++ digits :=
    fun _ => List.append_nil _
  exact ⟨⟨"load".toList, false, n, .absent, List.all_eq_true.mp (by decide), nofun⟩,
    List.cons_ne_nil _ _, rfl, htext _⟩

/-- A dependency whose line has a number of 4301 digits. -/
def farText : List Char :=
  "@dependency: load at line ".toList ++ Nat.toDigits 10 (Nat.pow 10 maxDigits)

theorem exists_tooLong : ∃ d : Mention, d.TooLong ∧ d.text = farText := by
  have hline : isWritable (Nat.pow 10 maxDigits) = false := by
    rw [isWritable]
    generalize Nat.pow 10 maxDigits = n
    exact decide_eq_false (Nat.lt_irrefl n)
  unfold farText
  generalize Nat.pow 10 maxDigits = n at hline ⊢
  obtain ⟨d, hne, rfl, htext⟩ := exists_mention n
  exact ⟨d, ⟨hne, hline⟩, htext⟩

/-! ## Blocks that are written -/

/-- A comment line that holds a text behind any indentation. -/
def Writes (l : Line) (t : List Char) : Prop := ∃ u, IsPad u ∧ l = u ++ ("// ".toList ++ t)

theorem Writes.commentText?_eq {l : Line} {t : List Char} (h : Writes l t) (ht : '\n' ∉ t) :
    commentText? l = some (commentText l) ∧ commentText l = trim t := by
  obtain ⟨u, hu, rfl⟩ := h
  have hleft : trimLeft (u ++ ("// ".toList ++ t)) = '/' :: '/' :: ' ' :: t := by
    rw [trimLeft_pad hu]
    exact trimLeft_cons_of_not_blank _ rfl
  have hblank : trim (' ' :: t) = trim t := by
    rw [trim, trimLeft_cons_of_blank t rfl, trim]
  have htext : commentText (u ++ ("// ".toList ++ t)) = trim (' ' :: t) := by
    rw [commentText, hleft]
    rfl
  have hfeed : '\n' ∉ ' ' :: t := by simpa using ht
  rw [commentText?_of_slashes hfeed hleft, htext]
  exact ⟨rfl, hblank⟩

theorem commentTexts_of_writes (h : List.Forall₂ Writes block texts)
    (hline : ∀ t ∈ texts, '\n' ∉ t) :
    (∀ l ∈ block, commentText? l = some (commentText l)) ∧
      block.map commentText = texts.map trim := by
  induction h with
  | nil => exact ⟨nofun, rfl⟩
  | cons hl _ ih =>
    obtain ⟨ht, hrest⟩ := List.forall_mem_cons.mp hline
    obtain ⟨hcomment, htext⟩ := hl.commentText?_eq ht
    obtain ⟨hcomments, htexts⟩ := ih hrest
    refine ⟨List.forall_mem_cons.mpr ⟨hcomment, hcomments⟩, ?_⟩
    rw [List.map_cons, List.map_cons, htext, htexts]

/-- The block above the line behind written lines. -/
theorem blockAbove_written (habove : ∀ l ∈ before.getLast?, ¬ IsComment l)
    (hblock : List.Forall₂ Writes block texts) (hne : texts ≠ []) (hline : ∀ t ∈ texts, '\n' ∉ t)
    (rest : List Line) :
    blockAbove (before ++ block ++ rest) (before.length + block.length + 1 : Nat) =
      .ok { texts := texts.map trim, firstLine := some (before.length + 1 : Nat) } := by
  obtain ⟨hcomments, htexts⟩ := commentTexts_of_writes hblock hline
  have hsome : block ≠ [] := by
    rintro rfl
    cases hblock
    exact hne rfl
  rw [blockAbove_run hsome hcomments habove, htexts]

/-! ## Consumer markers -/

/-- What a consumer marker says, as it can be written. -/
structure Notice where
  category : Label
  reason : Reason
  dependencies : List Mention
  id : Label

theorem readConsumers_of_ok {c c' : ConsumerMarker} {t : List Char} (h : readConsumer c t = .ok c')
    (ts : List (List Char)) : readConsumers c (t :: ts) = readConsumers c' ts := by
  rw [readConsumers, h]

theorem readConsumers_mentions {ds : List Mention} (h : ∀ d ∈ ds, ¬ d.TooLong) (c : ConsumerMarker)
    (ts : List (List Char)) :
    readConsumers c (ds.map (fun d => trim d.text) ++ ts) =
      readConsumers { c with dependencies := c.dependencies ++ ds.filterMap Mention.ref? } ts := by
  induction ds generalizing c with
  | nil => simp
  | cons d ds ih =>
    obtain ⟨hd, hds⟩ := List.forall_mem_cons.mp h
    rw [List.map_cons, List.cons_append,
      readConsumers_of_ok (d.readConsumer_of_not_tooLong hd), ih hds, List.append_assoc]
    cases href : d.ref? <;> simp [href]

theorem readConsumers_mentions_error {ds : List Mention}
    (h : ∃ d ∈ ds, d.TooLong) (c : ConsumerMarker) (ts : List (List Char)) :
    readConsumers c (ds.map (fun d => trim d.text) ++ ts) = .error .longNumeral := by
  induction ds generalizing c with
  | nil =>
    obtain ⟨d, hd, -⟩ := h
    cases hd
  | cons d ds ih =>
    by_cases hd : d.TooLong
    · rw [List.map_cons, List.cons_append, readConsumers, d.readConsumer_of_tooLong hd]
    · rw [List.map_cons, List.cons_append, readConsumers_of_ok (d.readConsumer_of_not_tooLong hd)]
      refine ih ?_ _
      obtain ⟨d', hd', hlong⟩ := h
      rcases List.mem_cons.mp hd' with rfl | hlater
      · exact absurd hlong hd
      · exact ⟨d', hlater, hlong⟩

namespace Notice

variable (w : Notice)

/-- The texts of its lines. -/
def lines : List (List Char) :=
  tagged "@validation-ignore" w.category.chars :: tagged "@reason:" w.reason.chars ::
    (w.dependencies.map Mention.text ++ [tagged "@whitelist-id:" w.id.chars])

/-- What is to be read of it if its first line has the given number. -/
def marker (first : Int) : ConsumerMarker where
  found := true
  category := some (String.ofList w.category.chars)
  reason := some (String.ofList w.reason.chars)
  dependencies := w.dependencies.filterMap Mention.ref?
  whitelistId := some (String.ofList w.id.chars)
  commentStartLine := some first

theorem map_trim_lines : w.lines.map trim =
    tagged "@validation-ignore" w.category.chars :: tagged "@reason:" w.reason.chars ::
      (w.dependencies.map (fun d => trim d.text) ++ [tagged "@whitelist-id:" w.id.chars]) := by
  have hcategory : trim (tagged "@validation-ignore" w.category.chars) = _ :=
    trim_tagged (by decide) (by rintro c ⟨⟩; rfl) w.category.nonempty w.category.not_blank_last
  have hreason : trim (tagged "@reason:" w.reason.chars) = _ :=
    trim_tagged (by decide) (by rintro c ⟨⟩; rfl) w.reason.nonempty w.reason.last
  have hid : trim (tagged "@whitelist-id:" w.id.chars) = _ :=
    trim_tagged (by decide) (by rintro c ⟨⟩; rfl) w.id.nonempty w.id.not_blank_last
  simp only [lines, List.map_cons, List.map_append, List.map_nil, List.map_map,
    hcategory, hreason, hid]
  rfl

theorem lf_not_mem_lines : ∀ t ∈ w.lines, '\n' ∉ t := by
  have htagged : ∀ {tag : String} {t : List Char}, '\n' ∉ tag.toList → '\n' ∉ t →
      '\n' ∉ tagged tag t := by
    intro tag t htag ht
    simp only [tagged, List.mem_append, not_or]
    exact ⟨htag, by decide, ht⟩
  have hlabel : ∀ l : Label, '\n' ∉ l.chars := fun l => l.not_mem (by decide)
  intro t ht
  simp only [lines, List.mem_cons, List.mem_append, List.mem_map, List.not_mem_nil, or_false] at ht
  rcases ht with rfl | rfl | ⟨d, -, rfl⟩ | rfl
  · exact htagged (by decide) (hlabel _)
  · exact htagged (by decide) w.reason.line
  · exact d.lf_not_mem_text
  · exact htagged (by decide) (hlabel _)

theorem readConsumers_lines (first : Int) :
    ((∃ d ∈ w.dependencies, d.TooLong) →
      readConsumers { commentStartLine := some first } (w.lines.map trim) = .error .longNumeral) ∧
    ((∀ d ∈ w.dependencies, ¬ d.TooLong) →
      readConsumers { commentStartLine := some first } (w.lines.map trim) =
        .ok (w.marker first)) := by
  rw [map_trim_lines, readConsumers_of_ok (readConsumer_category _),
    readConsumers_of_ok (readConsumer_reason _)]
  refine ⟨fun h => readConsumers_mentions_error h _ _, fun h => ?_⟩
  rw [readConsumers_mentions h, readConsumers_of_ok (readConsumer_id _)]
  rfl

end Notice

end NullAccess.Marker
