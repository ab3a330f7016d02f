import Mathlib.Data.Bool.AllAny
import Mathlib.Data.List.Forall2
import NullAccess.Proofs.Marker.Notice

/-!
# Markers read back

What is written as a marker directly above a line is read back from that line: a notice, and a list
of ids above a function (`written_markers_read_back`).  The names of a list are what stands between
its dividers, with the empty stretches left out, so a list may be written with blanks around its
commas (`names_joinWith`).
-/

namespace NullAccess.Marker

open Text Pattern

/-! ## Lists of ids -/

/-- What divides the names of a list. -/
def isDivider (c : Char) : Bool := c == ',' || isBlank c

/-- The stretches between dividers, empty ones too. -/
def stretches (t : List Char) : List (List Char) :=
  t.foldr (fun c held =>
    if isDivider c then [] :: held
    else match held with
      | [] => [[c]]
      | first :: rest => (c :: first) :: rest) [[]]

theorem names_eq (t : List Char) :
    names t = ((stretches t).filter fun p => !p.isEmpty).map String.ofList := rfl

variable {t x u w : List Char} {c : Char}

theorem stretches_cons_divider (hc : isDivider c = true) (t : List Char) :
    stretches (c :: t) = [] :: stretches t := by
  rw [stretches, List.foldr_cons, if_pos hc]
  rfl

theorem stretches_cons_of_not_divider (hc : isDivider c = false) {p : List Char}
    {ps : List (List Char)} (ht : stretches t = p :: ps) : stretches (c :: t) = (c :: p) :: ps := by
  rw [stretches] at ht ⊢
  rw [List.foldr_cons, if_neg (by simp [hc]), ht]

theorem exists_stretches (t : List Char) : ∃ p ps, stretches t = p :: ps := by
  induction t with
  | nil => exact ⟨[], [], rfl⟩
  | cons c t ih =>
    obtain ⟨p, ps, ht⟩ := ih
    cases hc : isDivider c with
    | true => exact ⟨[], stretches t, stretches_cons_divider hc t⟩
    | false => exact ⟨c :: p, ps, stretches_cons_of_not_divider hc ht⟩

theorem names_pad (hu : ∀ c ∈ u, isDivider c = true) (t : List Char) :
    names (u ++ t) = names t := by
  induction u with
  | nil => rfl
  | cons c u ih =>
    obtain ⟨hc, hu⟩ := List.forall_mem_cons.mp hu
    rw [← ih hu, List.cons_append, names_eq, stretches_cons_divider hc]
    rfl

theorem stretches_append_divider (hc : isDivider c = true) (t : List Char) :
    stretches (t ++ [c]) = stretches t ++ [[]] := by
  induction t with
  | nil => exact stretches_cons_divider hc []
  | cons d t ih =>
    cases hd : isDivider d with
    | true =>
      rw [List.cons_append, stretches_cons_divider hd,
        stretches_cons_divider hd, ih, List.cons_append]
    | false =>
      obtain ⟨p, ps, ht⟩ := exists_stretches t
      rw [stretches_cons_of_not_divider hd ht]
      rw [ht] at ih
      exact stretches_cons_of_not_divider hd ih

theorem names_append_pad (hw : ∀ c ∈ w, isDivider c = true) (t : List Char) :
    names (t ++ w) = names t := by
  induction w generalizing t with
  | nil => rw [List.append_nil]
  | cons c w ih =>
    obtain ⟨hc, hw⟩ := List.forall_mem_cons.mp hw
    have hstep : t ++ c :: w = t ++ [c] ++ w := by simp
    rw [hstep, ih hw, names_eq, stretches_append_divider hc]
    simp [names_eq]

theorem isDivider_of_isPad (hu : IsPad u) : ∀ c ∈ u, isDivider c = true := by
  intro c hc
  rw [isDivider, hu c hc, Bool.or_true]

theorem names_trim (t : List Char) : names (trim t) = names t :=
  eq_of_pads (fun hu hw t => by
    rw [names_append_pad (isDivider_of_isPad hw), names_pad (isDivider_of_isPad hu)]) t

/-- A name is read up to the next divider. -/
theorem names_name (hne : x ≠ []) (hx : ∀ c ∈ x, isDivider c = false)
    (ht : ∀ c ∈ t.head?, isDivider c = true) : names (x ++ t) = String.ofList x :: names t := by
  have hrest : ∃ ps, stretches t = [] :: ps := by
    cases t with
    | nil => exact ⟨[], rfl⟩
    | cons c t => exact ⟨_, stretches_cons_divider (ht c rfl) t⟩
  obtain ⟨ps, hps⟩ := hrest
  have hstretch : ∀ x : List Char, (∀ c ∈ x, isDivider c = false) →
      stretches (x ++ t) = x :: ps := by
    intro x hx
    induction x with
    | nil => exact hps
    | cons c x ih =>
      obtain ⟨hc, hx⟩ := List.forall_mem_cons.mp hx
      exact stretches_cons_of_not_divider hc (ih hx)
  rw [names_eq, names_eq, hstretch x hx, hps]
  simp [hne]

/-- An id between blanks. -/
def Label.IsPiece (l : Label) (p : List Char) : Prop :=
  ∃ u w, IsPad u ∧ IsPad w ∧ '\n' ∉ u ∧ '\n' ∉ w ∧ p = u ++ l.chars ++ w

theorem Label.not_divider (l : Label) : ∀ c ∈ l.chars, isDivider c = false := by
  intro c hc
  rw [isDivider, l.not_blank c hc, Bool.or_false]
  exact beq_false_of_ne fun heq => l.not_mem (c := ',') (by decide +kernel) (heq ▸ hc)

theorem Label.IsPiece.names_append {l : Label} {p : List Char} (h : l.IsPiece p)
    (ht : ∀ c ∈ t.head?, isDivider c = true) :
    names (p ++ t) = String.ofList l.chars :: names t := by
  obtain ⟨u, w, hu, hw, -, -, rfl⟩ := h
  have hnext : ∀ c ∈ (w ++ t).head?, isDivider c = true := by
    cases w with
    | nil => exact ht
    | cons d w =>
      rintro _ ⟨⟩
      exact isDivider_of_isPad hw d List.mem_cons_self
  rw [List.append_assoc, List.append_assoc, names_pad (isDivider_of_isPad hu),
    names_name l.nonempty l.not_divider hnext, names_pad (isDivider_of_isPad hw)]

/-- Every id of a list is read, in its place. -/
theorem names_joinWith {ids : List Label} {pieces : List (List Char)}
    (h : List.Forall₂ Label.IsPiece ids pieces) :
    names (joinWith [','] pieces) = ids.map fun l => String.ofList l.chars := by
  induction h with
  | nil => rfl
  | @cons l p ids pieces hp hrest ih =>
    cases hrest with
    | nil =>
      have hlast := hp.names_append (t := []) nofun
      rwa [List.append_nil] at hlast
    | @cons _ p' _ pieces =>
      have hcomma :
          names ([','] ++ joinWith [','] (p' :: pieces)) = names (joinWith [','] (p' :: pieces)) :=
        names_pad (List.all_eq_true.mp (by decide)) _
      rw [joinWith, List.append_assoc, hp.names_append (by rintro c ⟨⟩; rfl), hcomma, ih]
      · rfl
      · exact List.cons_ne_nil _ _

theorem providerTag_find? {t : List Char}
    (ht : ∀ c ∈ t, (isIdChar c || isBlank c || c == ',') = true) (hne : trim t ≠ []) :
    ∃ m, providerTag.find? (trim (tagged "@validation-dependency" t)) = some m ∧
      m.group 1 = trim t := by
  obtain ⟨u, w, hu, hw, hpads⟩ := exists_pads t
  have htext : trim (tagged "@validation-dependency" t) =
      "@validation-dependency".toList ++ ((' ' :: u) ++ trim t) := by
    have hsplit : tagged "@validation-dependency" t =
        "@validation-dependency".toList ++ ((' ' :: u) ++ trim t) ++ w := by
      conv_lhs => rw [tagged, hpads]
      simp only [List.append_assoc]
      rfl
    rw [hsplit,
      trim_append (List.append_ne_nil_of_left_ne_nil (by decide) _) (by rintro c ⟨⟩; rfl) ?_,
      trimRight_of_isPad hw, List.append_nil]
    rw [← List.append_assoc, List.getLast?_append_of_ne_nil _ hne]
    exact not_blank_of_mem_getLast?_trim
  have hpad : IsPad (' ' :: u) := List.forall_mem_cons.mpr ⟨rfl, hu⟩
  have hchars : ∀ c ∈ trim t, (isIdChar c || isBlank c || c == ',') = true := by
    intro c hc
    refine ht c ?_
    rw [hpads]
    exact List.mem_append_left w (List.mem_append_right u hc)
  obtain ⟨m, hm, hgroup⟩ := exists_find?_tag (n := 1) (v := "@validation-dependency") (a := gap)
    (head?_ends_gap hpad (List.cons_ne_nil _ _) not_blank_of_mem_head?_trim · []) hne hchars
  rw [htext]
  exact ⟨m, hm, hgroup⟩

theorem mem_joinWith {sep : List Char} {c : Char} {ts : List (List Char)}
    (hc : c ∈ joinWith sep ts) :
    c ∈ sep ∨ ∃ t ∈ ts, c ∈ t := by
  induction ts with
  | nil => cases hc
  | cons t ts ih =>
    cases ts with
    | nil => exact .inr ⟨t, List.mem_cons_self, hc⟩
    | cons t' ts =>
      rw [joinWith, List.mem_append, List.mem_append] at hc
      · rcases hc with (hc | hc) | hc
        · exact .inr ⟨t, List.mem_cons_self, hc⟩
        · exact .inl hc
        · rcases ih hc with hsep | ⟨t'', ht'', hc⟩
          · exact .inl hsep
          · exact .inr ⟨t'', List.mem_cons_of_mem t ht'', hc⟩
      · exact List.cons_ne_nil _ _

theorem exists_isPiece {ids : List Label} {pieces : List (List Char)}
    (h : List.Forall₂ Label.IsPiece ids pieces) : ∀ p ∈ pieces, ∃ l : Label, l.IsPiece p := by
  induction h with
  | nil => nofun
  | @cons l _ _ _ hp _ ih => exact List.forall_mem_cons.mpr ⟨⟨l, hp⟩, ih⟩

/-- A list of ids is made of the characters that its tag reads, and ends no line. -/
theorem mem_ids {ids : List Label} {pieces : List (List Char)}
    (h : List.Forall₂ Label.IsPiece ids pieces) {c : Char} (hc : c ∈ joinWith [','] pieces) :
    (isIdChar c || isBlank c || c == ',') = true ∧ c ≠ '\n' := by
  rcases mem_joinWith hc with hcomma | ⟨p, hp, hc⟩
  · rw [List.mem_singleton.mp hcomma]
    decide +kernel
  · obtain ⟨l, u, w, hu, hw, hlf, hlf', rfl⟩ := exists_isPiece h p hp
    rcases List.mem_append.mp hc with hc | hc
    · rcases List.mem_append.mp hc with hc | hc
      · exact ⟨by simp [hu c hc], fun heq => hlf (heq ▸ hc)⟩
      · exact ⟨by simp [l.admissible c hc],
          fun heq => l.not_mem (c := '\n') (by decide +kernel) (heq ▸ hc)⟩
    · exact ⟨by simp [hw c hc], fun heq => hlf' (heq ▸ hc)⟩

theorem readProvider_ids {ids : List Label} {pieces : List (List Char)} (hne : ids ≠ [])
    (h : List.Forall₂ Label.IsPiece ids pieces) :
    readProvider {} (trim (tagged "@validation-dependency" (joinWith [','] pieces))) =
      { found := true, whitelistIds := ids.map fun l => String.ofList l.chars } := by
  have hnames := names_joinWith h
  have htrim : trim (joinWith [','] pieces) ≠ [] := by
    intro hnil
    rw [← names_trim, hnil] at hnames
    exact hne (List.map_eq_nil_iff.mp hnames.symm)
  obtain ⟨m, hm, hgroup⟩ := providerTag_find? (fun c hc => (mem_ids h hc).1) htrim
  simp only [readProvider, hm, hgroup, names_trim, hnames, List.nil_append]

/-! ## Reading back -/

/-- What is written as a marker is read back from the line below it: of a consumer marker the
category, the reason, the id and every dependency that names a function, and of a provider marker
the ids.  Only a line number that is too long cannot be read. -/
theorem written_markers_read_back {before block rest : List Line}
    (habove : ∀ l ∈ before.getLast?, ¬ IsComment l) :
    (∀ w : Notice, List.Forall₂ Writes block w.lines →
      ((∃ d ∈ w.dependencies, d.TooLong) →
        consumer (before ++ block ++ rest) (before.length + block.length + 1 : Nat) =
          .error .longNumeral) ∧
      ((∀ d ∈ w.dependencies, ¬ d.TooLong) →
        consumer (before ++ block ++ rest) (before.length + block.length + 1 : Nat) =
          .ok (w.marker (before.length + 1 : Nat)))) ∧
    ∀ (ids : List Label) (pieces : List (List Char)), ids ≠ [] →
      List.Forall₂ Label.IsPiece ids pieces →
      List.Forall₂ Writes block [tagged "@validation-dependency" (joinWith [','] pieces)] →
      provider (before ++ block ++ rest) (before.length + block.length + 1 : Nat) =
        .ok { found := true, whitelistIds := ids.map fun l => String.ofList l.chars } := by
  refine ⟨fun w hblock => ?_, fun ids pieces hne hpieces hblock => ?_⟩
  · have habove := blockAbove_written habove hblock (List.cons_ne_nil _ _) w.lf_not_mem_lines rest
    rw [consumer, habove]
    exact w.readConsumers_lines _
  · have hline : ∀ t ∈ [tagged "@validation-dependency" (joinWith [','] pieces)], '\n' ∉ t := by
      intro t ht
      rw [List.mem_singleton.mp ht, tagged, List.mem_append, List.mem_append, not_or, not_or]
      exact ⟨by decide, by decide, fun hc => (mem_ids hpieces hc).2 rfl⟩
    rw [provider, blockAbove_written habove hblock (List.cons_ne_nil _ _) hline rest]
    exact congrArg Except.ok (readProvider_ids hne hpieces)

/-- A consumer marker with two dependencies, one of them in another file. -/
def threadTexts : List (List Char) :=
  ["@validation-ignore null-access".toList, "@reason: initThreads() drops threads @ start".toList,
    "@dependency: initThreads() at line 15 [in src/threads.js]".toList,
    "@dependency: a.$b at line 3".toList, "@whitelist-id: null-access-001".toList]

def threadMarker : ConsumerMarker where
  found := true
  category := some "null-access"
  reason := some "initThreads() drops threads @ start"
  dependencies := [⟨"initThreads", 15, some "src/threads.js"⟩, ⟨"a.$b", 3, none⟩]
  whitelistId := some "null-access-001"
  commentStartLine := some 2

theorem exists_threadNotice :
    ∃ w : Notice, w.lines = threadTexts ∧ w.marker 2 = threadMarker ∧
      ∀ d ∈ w.dependencies, ¬ d.TooLong := by
  refine ⟨{
    category :=
      ⟨"null-access".toList, List.cons_ne_nil _ _, List.all_eq_true.mp (by decide +kernel)⟩
    reason := ⟨"initThreads() drops threads @ start".toList, List.cons_ne_nil _ _, by decide,
      by rintro c ⟨⟩; rfl, by rintro c ⟨⟩; rfl, by decide +kernel⟩
    dependencies :=
      [⟨"initThreads".toList, true, 15, .bracketed "src/threads.js".toList,
          List.all_eq_true.mp (by decide +kernel), List.all_iff_forall_prop.mp (by decide +kernel)⟩,
        ⟨"a.$b".toList, false, 3, .absent, List.all_eq_true.mp (by decide +kernel), nofun⟩]
    id :=
      ⟨"null-access-001".toList, List.cons_ne_nil _ _, List.all_eq_true.mp (by decide +kernel)⟩ },
    by decide +kernel, by decide +kernel, ?_⟩
  unfold Mention.TooLong
  decide +kernel

def threadBlock : List Line :=
  ["  // @validation-ignore null-access".toList,
    "  // @reason: initThreads() drops threads @ start".toList,
    "\t// @dependency: initThreads() at line 15 [in src/threads.js]".toList,
    "// @dependency: a.$b at line 3".toList,
    "  // @whitelist-id: null-access-001".toList]

theorem writes_threadBlock : List.Forall₂ Writes threadBlock threadTexts := by
  have hspaces : IsPad "  ".toList := List.all_eq_true.mp (by decide)
  have htab : IsPad "\t".toList := List.all_eq_true.mp (by decide)
  exact .cons ⟨"  ".toList, hspaces, by decide +kernel⟩
    (.cons ⟨"  ".toList, hspaces, by decide +kernel⟩
      (.cons ⟨"\t".toList, htab, by decide +kernel⟩
        (.cons ⟨[], isPad_nil, by decide +kernel⟩
          (.cons ⟨"  ".toList, hspaces, by decide +kernel⟩ .nil))))

/-- The ids of two entries, with blanks around the comma. -/
theorem exists_threadIds :
    ∃ ids : List Label, ids ≠ [] ∧
      (ids.map fun l => String.ofList l.chars) = ["null-access-001", "b-2"] ∧
      List.Forall₂ Label.IsPiece ids ["null-access-001 ".toList, " b-2".toList] := by
  refine ⟨[⟨"null-access-001".toList, List.cons_ne_nil _ _,
      List.all_eq_true.mp (by decide +kernel)⟩,
    ⟨"b-2".toList, List.cons_ne_nil _ _, List.all_eq_true.mp (by decide +kernel)⟩],
    List.cons_ne_nil _ _, by decide +kernel, ?_⟩
  exact .cons ⟨[], [' '], isPad_nil, isPad_blank, by decide, by decide, by decide +kernel⟩
    (.cons ⟨[' '], [], isPad_blank, isPad_nil, by decide, by decide, by decide +kernel⟩ .nil)

theorem written_markers_read_back_sample :
    (∀ l ∈ ["function render(thread) \x7b".toList].getLast?, ¬ IsComment l) ∧
    (∃ w : Notice, List.Forall₂ Writes threadBlock w.lines ∧ ∀ d ∈ w.dependencies, ¬ d.TooLong) ∧
    consumer
      (["function render(thread) \x7b".toList] ++ threadBlock ++ ["thread.user.name;".toList]) 7 =
      .ok threadMarker ∧
    provider (["x.y;".toList] ++ ["// @validation-dependency null-access-001 , b-2".toList] ++
        ["function f() \x7b".toList]) 3 =
      .ok { found := true, whitelistIds := ["null-access-001", "b-2"] } := by
  have habove : ∀ l ∈ ["function render(thread) \x7b".toList].getLast?, ¬ IsComment l := by
    unfold IsComment
    decide +kernel
  have habove' : ∀ l ∈ ["x.y;".toList].getLast?, ¬ IsComment l := by
    unfold IsComment
    decide +kernel
  obtain ⟨w, hlines, hmarker, hshort⟩ := exists_threadNotice
  obtain ⟨ids, hne, hids, hpieces⟩ := exists_threadIds
  have hwrites : List.Forall₂ Writes threadBlock w.lines := hlines ▸ writes_threadBlock
  have hwrites' : List.Forall₂ Writes ["// @validation-dependency null-access-001 , b-2".toList]
      [tagged "@validation-dependency"
        (joinWith [','] ["null-access-001 ".toList, " b-2".toList])] :=
    .cons ⟨[], isPad_nil, by decide +kernel⟩ .nil
  refine ⟨habove, ⟨w, hwrites, hshort⟩, ?_, ?_⟩
  · have hread : consumer (["function render(thread) \x7b".toList] ++ threadBlock ++
        ["thread.user.name;".toList]) 7 = .ok (w.marker 2) :=
      ((written_markers_read_back habove).1 w hwrites).2 hshort
    rw [hread, hmarker]
  · rw [← hids]
    exact (written_markers_read_back habove').2 ids _ hne hpieces hwrites'

def farBlock : List Line :=
  ["// @validation-ignore null-access".toList, "// @reason: checked".toList,
    "// ".toList ++ farText, "// @whitelist-id: null-access-001".toList]

theorem exists_farNotice :
    ∃ w : Notice, (∃ d ∈ w.dependencies, d.TooLong) ∧ List.Forall₂ Writes farBlock w.lines := by
  obtain ⟨d, hlong, htext⟩ := exists_tooLong
  refine ⟨{
    category :=
      ⟨"null-access".toList, List.cons_ne_nil _ _, List.all_eq_true.mp (by decide +kernel)⟩
    reason := ⟨"checked".toList, List.cons_ne_nil _ _, by decide, by rintro c ⟨⟩; rfl,
      by rintro c ⟨⟩; rfl, by decide +kernel⟩
    dependencies := [d]
    id :=
      ⟨"null-access-001".toList, List.cons_ne_nil _ _, List.all_eq_true.mp (by decide +kernel)⟩ },
    ⟨d, List.mem_singleton_self d, hlong⟩, ?_⟩
  have hcategory : "// @validation-ignore null-access".toList =
      "// ".toList ++ tagged "@validation-ignore" "null-access".toList := by decide +kernel
  have hreason : "// @reason: checked".toList =
      "// ".toList ++ tagged "@reason:" "checked".toList := by decide +kernel
  have hid : "// @whitelist-id: null-access-001".toList =
      "// ".toList ++ tagged "@whitelist-id:" "null-access-001".toList := by decide +kernel
  exact .cons ⟨[], isPad_nil, hcategory⟩ (.cons ⟨[], isPad_nil, hreason⟩
    (.cons ⟨[], isPad_nil, by rw [htext]; rfl⟩ (.cons ⟨[], isPad_nil, hid⟩ .nil)))

/-- A marker that names a line by a number of 4301 digits is not read back. -/
theorem far_line_not_read_back :
    consumer (farBlock ++ ["x.y;".toList]) 5 = .error .longNumeral ∧
    (∃ w : Notice, List.Forall₂ Writes farBlock w.lines) ∧
    ¬ ∀ (w : Notice) (block rest : List Line), List.Forall₂ Writes block w.lines →
      consumer (block ++ rest) (block.length + 1 : Nat) = .ok (w.marker 1) := by
  obtain ⟨w, hlong, hwrites⟩ := exists_farNotice
  have habove : ∀ l ∈ ([] : List Line).getLast?, ¬ IsComment l := nofun
  have hread : consumer (farBlock ++ ["x.y;".toList]) 5 = .error .longNumeral := by
    have hblock : blockAbove (farBlock ++ ["x.y;".toList]) 5 = _ :=
      blockAbove_written habove hwrites (List.cons_ne_nil _ _) w.lf_not_mem_lines ["x.y;".toList]
    rw [consumer, hblock]
    exact (w.readConsumers_lines 1).1 hlong
  refine ⟨hread, ⟨w, hwrites⟩, fun h => ?_⟩
  cases hread.symm.trans (h w farBlock ["x.y;".toList] hwrites)

end NullAccess.Marker
