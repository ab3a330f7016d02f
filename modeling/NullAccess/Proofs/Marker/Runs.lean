import NullAccess.Proofs.Marker.Notice
import NullAccess.Proofs.Pattern.Reads

/-!
# Finding the tags

The walk that finds the markers of a file goes down its lines, and the marker above a line is read
from the lines that go up from it.  Both see the same runs of comment lines: a line that is no
comment stands behind a run, or nothing is read above it (`exists_isRun_or_consumer`).  What is read
behind a run is read from all its lines (`IsRun.consumer`).  So the walk reports the lines behind
the runs in which a line carries the tag, each once and in their order, and it reports nothing at
all if a run that it reads names a line by a number with too many digits (`tagged_runs_found_once`).
-/

namespace NullAccess.Marker

open Text Pattern

variable {lines done rest before run : List Line} {l : Line} {t : List Char} {k : Nat} {n : Int}
  {c c' m : ConsumerMarker} {f : Fault} {marked : List (Int × ConsumerMarker)}

/-! ## What a line of a run tells -/

/-- The tag stands in the text, with blanks and a category behind it. -/
def CarriesTag (t : List Char) : Prop :=
  ∃ x w c r, t = x ++ ("@validation-ignore".toList ++ (w ++ c :: r)) ∧ w ≠ [] ∧ IsPad w ∧
    isIdChar c = true

theorem mem_ends_gap {s u : Place} :
    u ∈ gap.ends s ↔ ∃ w r, s.after = w ++ r ∧ w ≠ [] ∧ IsPad w ∧
      u = { s with before := w.reverse ++ s.before, after := r } := by
  rw [gap, some1, mem_ends_seq]
  constructor
  · rintro ⟨v, hfirst, hrest⟩
    obtain ⟨b, r, hafter, hb, rfl⟩ := mem_ends_one.mp hfirst
    obtain ⟨w, r', hr, hw, rfl⟩ := mem_ends_run.mp hrest
    replace hr : r = w ++ r' := hr
    exact ⟨b :: w, r', by rw [hafter, hr]; rfl, List.cons_ne_nil _ _,
      List.forall_mem_cons.mpr ⟨hb, hw⟩, by simp⟩
  · rintro ⟨w, r, hafter, hne, hw, rfl⟩
    obtain ⟨b, w, rfl⟩ := List.exists_cons_of_ne_nil hne
    obtain ⟨hb, hw⟩ := List.forall_mem_cons.mp hw
    exact ⟨_, mem_ends_one.mpr ⟨b, w ++ r, hafter, hb, rfl⟩,
      mem_ends_run.mpr ⟨w, r, rfl, hw, by simp⟩⟩

theorem find?_ignoreTag_eq_none_iff : ignoreTag.find? t = none ↔ ¬ CarriesTag t := by
  rw [find?_eq_none_iff, ← not_exists, not_iff_not]
  constructor
  · rintro ⟨k, -, hends⟩
    obtain ⟨u, hu⟩ := List.exists_mem_of_ne_nil _ hends
    obtain ⟨v₂, hlead, hgroup⟩ := mem_ends_seq.mp hu
    obtain ⟨v₁, hlit, hgap⟩ := mem_ends_seq.mp hlead
    obtain ⟨r₁, htext, rfl⟩ := mem_ends_text.mp hlit
    obtain ⟨w, r₂, hr₁, hne, hw, rfl⟩ := mem_ends_gap.mp hgap
    obtain ⟨v, hrun, -⟩ := List.mem_map.mp hgroup
    obtain ⟨v', hfirst, -⟩ := mem_ends_seq.mp hrun
    obtain ⟨c, r, hr₂, hc, -⟩ := mem_ends_one.mp hfirst
    replace hr₁ : r₁ = w ++ r₂ := hr₁
    replace hr₂ : r₂ = c :: r := hr₂
    replace htext : t.drop k = "@validation-ignore".toList ++ r₁ := htext
    refine ⟨t.take k, w, c, r, ?_, hne, hw, hc⟩
    rw [← hr₂, ← hr₁, ← htext, List.take_append_drop]
  · rintro ⟨x, w, c, r, rfl, hne, hw, hc⟩
    refine ⟨x.length, by simp, ?_⟩
    rw [atColumn_append]
    obtain ⟨u, hgap, hafter⟩ : ∃ u ∈ (lit "@validation-ignore" ++ gap).ends
        ⟨x.reverse, "@validation-ignore".toList ++ (w ++ c :: r), []⟩, u.after = c :: r :=
      ⟨_, mem_ends_seq.mpr ⟨_, mem_ends_text.mpr ⟨_, rfl, rfl⟩,
        mem_ends_gap.mpr ⟨w, c :: r, rfl, hne, hw, rfl⟩⟩, rfl⟩
    obtain ⟨v, hname⟩ : ∃ v, v ∈ (some1 (one isIdChar)).ends u :=
      ⟨_, mem_ends_seq.mpr ⟨_, mem_ends_one.mpr ⟨c, r, hafter, hc, rfl⟩,
        mem_ends_run.mpr ⟨[], r, rfl, nofun, rfl⟩⟩⟩
    exact List.ne_nil_of_mem (mem_ends_seq.mpr ⟨_, hgap, List.mem_map_of_mem hname⟩)

/-- What is read of the text is a dependency, and the number of its line has too many digits. -/
def NamesFarLine (t : List Char) : Prop :=
  ignoreTag.find? t = none ∧ reasonTag.find? t = none ∧
    ∃ m, dependencyTag.find? t = some m ∧ maxDigits < (m.group 2).length

/-- The line of a dependency is given by decimal digits. -/
theorem digits_of_find? {m : Match} (h : dependencyTag.find? t = some m) :
    m.group 2 ≠ [] ∧ ∀ c ∈ m.group 2, isDecimal c = true := by
  obtain ⟨v, hline, hfile⟩ := mem_ends_seq.mp (isMatch_of_find? h).mem
  obtain ⟨_, -, hdigits⟩ := mem_ends_seq.mp hline
  obtain ⟨c, x, hgroup, hc, hx⟩ := exists_run_of_group hdigits
  have hkept : m.group 2 = c :: x := by
    rw [Match.group, Match.group?, group?_of_leaves rfl hfile, hgroup]
    rfl
  rw [hkept]
  exact ⟨List.cons_ne_nil c x, List.forall_mem_cons.mpr ⟨hc, hx⟩⟩

theorem dependencyOf_eq_error_iff {m : Match} (h : dependencyTag.find? t = some m) :
    dependencyOf m = .error f ↔ f = .longNumeral ∧ maxDigits < (m.group 2).length := by
  obtain ⟨hne, hdecimal⟩ := digits_of_find? h
  rw [← readNumeral?_eq_none_iff hne hdecimal, dependencyOf]
  cases readNumeral? (m.group 2) <;> simp [eq_comm]

theorem readConsumer_eq_error_iff :
    readConsumer c t = .error f ↔ f = .longNumeral ∧ NamesFarLine t := by
  unfold readConsumer NamesFarLine
  cases ignoreTag.find? t with
  | some m => simp
  | none =>
    cases reasonTag.find? t with
    | some m => simp
    | none =>
      cases hdependency : dependencyTag.find? t with
      | some m =>
        have hiff := dependencyOf_eq_error_iff (f := f) hdependency
        cases hread : dependencyOf m <;> simp_all [Except.map]
      | none => cases whitelistIdTag.find? t <;> simp

/-- A line leaves the marker as found as it was, unless it carries the tag. -/
theorem found_of_readConsumer (h : readConsumer c t = .ok c') :
    c'.found = true ↔ c.found = true ∨ CarriesTag t := by
  rcases readConsumer_ok h with ⟨tag, hignore, hfound, -⟩ | ⟨hignore, hfound, -⟩
  · have htag : CarriesTag t := by
      by_contra hnone
      rw [find?_ignoreTag_eq_none_iff.mpr hnone] at hignore
      cases hignore
    simp [hfound, htag]
  · simp [hfound, find?_ignoreTag_eq_none_iff.mp hignore]

theorem readConsumers_eq_error_iff {ts : List (List Char)} :
    readConsumers c ts = .error f ↔ f = .longNumeral ∧ ∃ t ∈ ts, NamesFarLine t := by
  induction ts generalizing c with
  | nil => simp [readConsumers]
  | cons t ts ih =>
    have hiff : ∀ {f}, readConsumer c t = .error f ↔ _ := readConsumer_eq_error_iff
    rw [readConsumers]
    cases hfirst : readConsumer c t with
    | error g =>
      obtain ⟨rfl, hfar⟩ := hiff.mp hfirst
      simp [hfar, eq_comm]
    | ok c' =>
      have hnear : ¬ NamesFarLine t := fun hfar => by
        rw [hiff.mpr ⟨rfl, hfar⟩] at hfirst
        cases hfirst
      simp [ih, hnear]

theorem found_of_readConsumers {ts : List (List Char)} (h : readConsumers c ts = .ok c') :
    c'.found = true ↔ c.found = true ∨ ∃ t ∈ ts, CarriesTag t := by
  induction ts generalizing c with
  | nil =>
    cases h
    simp
  | cons t ts ih =>
    rw [readConsumers] at h
    cases hfirst : readConsumer c t with
    | error f =>
      rw [hfirst] at h
      cases h
    | ok next =>
      rw [hfirst] at h
      rw [ih h, found_of_readConsumer hfirst, or_assoc]
      simp

/-! ## The line behind a run -/

theorem IsRun.consumer (h : IsRun lines before run rest) (hlines : ∀ l ∈ lines, '\n' ∉ l) :
    consumer lines (before.length + run.length + 1 : Nat) =
      readConsumers { commentStartLine := some (before.length + 1 : Nat) }
        (run.map commentText) := by
  rw [Marker.consumer, h.blockAbove hlines]
  rfl

/-- Behind a run that does not end the file stands a line that is no comment. -/
theorem IsRun.exists_code (h : IsRun lines before run rest) (hrest : rest ≠ []) :
    ∃ l, lines[before.length + run.length]? = some l ∧ commentText? l = none := by
  obtain ⟨l, rest, rfl⟩ := List.exists_cons_of_ne_nil hrest
  refine ⟨l, ?_, commentText?_of_not_slashes (h.below l rfl)⟩
  rw [h.split, ← List.length_append, List.getElem?_append_right (Nat.le_refl _), Nat.sub_self]
  rfl

/-- A line that is no comment stands behind a run, or nothing is read above it. -/
theorem exists_isRun_or_consumer (hlines : ∀ l ∈ lines, '\n' ∉ l) (hk : lines[k]? = some l)
    (hl : commentText? l = none) :
    consumer lines (k + 1 : Nat) = .ok {} ∨
      ∃ before run rest, IsRun lines before run rest ∧ rest ≠ [] ∧
        k = before.length + run.length := by
  obtain ⟨hlt, rfl⟩ := List.getElem?_eq_some_iff.mp hk
  have hsplit : lines = lines.take k ++ lines.drop k := (List.take_append_drop k lines).symm
  have hlength : (lines.take k).length = k := List.length_take_of_le (Nat.le_of_lt hlt)
  have hdrop : lines.drop k = lines[k] :: lines.drop (k + 1) := List.drop_eq_getElem_cons hlt
  obtain ⟨before, run, htake, hrun, habove⟩ := exists_comments_above (lines.take k)
  rw [htake] at hsplit hlength
  by_cases hne : run = []
  · subst hne
    have hnone : leadingTexts (before ++ []).reverse = [] := leadingTexts_run nofun habove
    refine .inl ?_
    have hconsumer := consumer_append (before ++ []) (lines.drop k)
    rw [← hsplit, hlength, hnone] at hconsumer
    rw [Int.natCast_succ, hconsumer]
    rfl
  · refine .inr ⟨before, run, lines.drop k, ⟨hsplit, hne, hrun, habove, ?_⟩, ?_, ?_⟩
    · rw [hdrop]
      rintro _ ⟨⟩
      exact (commentText?_eq_none_iff (hlines _ (List.getElem_mem hlt))).mp hl
    · rw [hdrop]
      exact List.cons_ne_nil _ _
    · rw [← hlength, List.length_append]

/-! ## The lines that are reported -/

/-- The walk fails exactly if a run that does not end the file names a line by too many digits. -/
theorem findAll_eq_error_iff_exists_isRun (hlines : ∀ l ∈ lines, '\n' ∉ l) :
    findAll lines = .error f ↔ f = .longNumeral ∧
      ∃ before run rest, IsRun lines before run rest ∧ rest ≠ [] ∧
        ∃ l ∈ run, NamesFarLine (commentText l) := by
  rw [findAll_eq_error_iff]
  refine and_congr_right fun _ => ⟨?_, ?_⟩
  · rintro ⟨k, l, hk, hcode, hfault⟩
    rcases exists_isRun_or_consumer hlines hk hcode with
      hnone | ⟨before, run, rest, hrun, hrest, rfl⟩
    · rw [hnone] at hfault
      cases hfault
    · rw [hrun.consumer hlines, readConsumers_eq_error_iff] at hfault
      exact ⟨before, run, rest, hrun, hrest, by simpa using hfault⟩
  · rintro ⟨before, run, rest, hrun, hrest, hfar⟩
    obtain ⟨l, hl, hcode⟩ := hrun.exists_code hrest
    refine ⟨_, l, hl, hcode, ?_⟩
    rw [hrun.consumer hlines, readConsumers_eq_error_iff]
    exact ⟨rfl, by simpa using hfar⟩

/-- The line behind a run with the tag is reported. -/
theorem IsRun.exists_mem_findAll (h : IsRun lines before run rest) (hlines : ∀ l ∈ lines, '\n' ∉ l)
    (hmarked : findAll lines = .ok marked) (hrest : rest ≠ [])
    (htag : ∃ l ∈ run, CarriesTag (commentText l)) :
    ∃ m, (((before.length + run.length + 1 : Nat) : Int), m) ∈ marked := by
  obtain ⟨l, hl, hcode⟩ := h.exists_code hrest
  have hread := h.consumer hlines
  cases hmarker : Marker.consumer lines (before.length + run.length + 1 : Nat) with
  | error f =>
    rw [hmarker] at hread
    obtain ⟨rfl, -⟩ := readConsumers_eq_error_iff.mp hread.symm
    have hfault := findAll_eq_error_iff.mpr ⟨rfl, _, l, hl, hcode, hmarker⟩
    rw [hmarked] at hfault
    cases hfault
  | ok m =>
    rw [hmarker] at hread
    have hfound : m.found = true :=
      (found_of_readConsumers hread.symm).mpr (.inr (by simpa using htag))
    exact ⟨m, ((findAll_spec hmarked).2 _ m).mpr ⟨_, rfl, ⟨l, hl, hcode⟩, hmarker, hfound⟩⟩

/-- A line that is reported stands behind a run with the tag. -/
theorem exists_isRun_of_mem_findAll (hlines : ∀ l ∈ lines, '\n' ∉ l)
    (hmarked : findAll lines = .ok marked) (hm : (n, m) ∈ marked) :
    ∃ before run rest, IsRun lines before run rest ∧ rest ≠ [] ∧
      (∃ l ∈ run, CarriesTag (commentText l)) ∧ n = (before.length + run.length + 1 : Nat) := by
  obtain ⟨k, rfl, ⟨l, hk, hcode⟩, hmarker, hfound⟩ := ((findAll_spec hmarked).2 n m).mp hm
  rcases exists_isRun_or_consumer hlines hk hcode with hnone | ⟨before, run, rest, hrun, hrest, rfl⟩
  · rw [hnone] at hmarker
    cases hmarker
    cases hfound
  · refine ⟨before, run, rest, hrun, hrest, ?_, rfl⟩
    rw [hrun.consumer hlines] at hmarker
    simpa using (found_of_readConsumers hmarker).mp hfound

/-- Every comment line stands in a run.  The walk fails exactly if a run that does not end the file
names a line by too many digits.  Otherwise it reports, each once and in their order, the lines
behind the runs in which a line carries the tag, with the markers that are read from the whole
runs. -/
theorem tagged_runs_found_once (hlines : ∀ l ∈ lines, '\n' ∉ l) :
    (∀ k l, lines[k]? = some l → IsComment l →
      ∃ before run rest, IsRun lines before run rest ∧
        before.length ≤ k ∧ k < before.length + run.length) ∧
    (∀ f, findAll lines = .error f ↔ f = .longNumeral ∧
      ∃ before run rest, IsRun lines before run rest ∧ rest ≠ [] ∧
        ∃ l ∈ run, NamesFarLine (commentText l)) ∧
    ∀ marked, findAll lines = .ok marked →
      (marked.map Prod.fst).Pairwise (· < ·) ∧
      (∀ before run rest, IsRun lines before run rest → rest ≠ [] →
        (∃ l ∈ run, CarriesTag (commentText l)) →
        (marked.map Prod.fst).count ((before.length + run.length + 1 : Nat) : Int) = 1) ∧
      ∀ n m, (n, m) ∈ marked →
        consumer lines n = .ok m ∧
        ∃ before run rest, IsRun lines before run rest ∧ rest ≠ [] ∧
          (∃ l ∈ run, CarriesTag (commentText l)) ∧ n = (before.length + run.length + 1 : Nat) ∧
          blockAbove lines n =
            .ok { texts := run.map commentText, firstLine := some (before.length + 1 : Nat) } := by
  refine ⟨fun k l => exists_isRun, fun f => findAll_eq_error_iff_exists_isRun hlines,
    fun marked hmarked => ?_⟩
  have hordered := (findAll_spec hmarked).1
  refine ⟨hordered, fun before run rest hrun hrest htag => ?_, fun n m hm => ?_⟩
  · obtain ⟨m, hm⟩ := hrun.exists_mem_findAll hlines hmarked hrest htag
    exact List.count_eq_one_of_mem (hordered.imp Int.ne_of_lt) (List.mem_map_of_mem hm)
  · obtain ⟨before, run, rest, hrun, hrest, htag, rfl⟩ :=
      exists_isRun_of_mem_findAll hlines hmarked hm
    exact ⟨(consumer_of_mem_findAll hmarked hm).2.1, before, run, rest, hrun, hrest, htag, rfl,
      hrun.blockAbove hlines⟩

/-- A file with a run of three lines, a run without the tag, and a run at its end. -/
def threeRuns : List Line :=
  ["// @reason: checked".toList, "  // @validation-ignore null-access".toList, "// note".toList,
    "x.y;".toList, [], "// @reason: none".toList, "p.q;".toList,
    "// @validation-ignore null-access".toList]

theorem tagged_runs_found_once_sample :
    (∀ l ∈ threeRuns, '\n' ∉ l) ∧
    findAll threeRuns = .ok [(4, { found := true, category := some "null-access",
                                   reason := some "checked", commentStartLine := some 1 })] ∧
    (([4] : List Int).Pairwise (· < ·) ∧ ([4] : List Int).count 4 = 1) ∧
    ∃ before run rest, IsRun threeRuns before run rest ∧ rest ≠ [] ∧
      (∃ l ∈ run, CarriesTag (commentText l)) ∧
      (4 : Int) = (before.length + run.length + 1 : Nat) := by
  have hlines : ∀ l ∈ threeRuns, '\n' ∉ l := by decide
  have hfound : findAll threeRuns = .ok [(4, { found := true, category := some "null-access",
                                               reason := some "checked",
                                               commentStartLine := some 1 })] := by decide
  obtain ⟨-, -, hall⟩ := tagged_runs_found_once hlines
  obtain ⟨hordered, honce, hbehind⟩ := hall _ hfound
  have htagged : IsRun threeRuns [] (threeRuns.take 3) (threeRuns.drop 3) := by
    refine ⟨rfl, List.cons_ne_nil _ _, ?_, nofun, ?_⟩
    all_goals
      unfold IsComment
      decide
  have hcarries : ∃ l ∈ threeRuns.take 3, CarriesTag (commentText l) :=
    ⟨_, List.mem_cons_of_mem _ List.mem_cons_self, [], " ".toList, 'n', "ull-access".toList,
      by decide, by decide, isPad_blank, by decide⟩
  have hcount := honce [] _ _ htagged (List.cons_ne_nil _ _) hcarries
  obtain ⟨-, before, run, rest, hrun, hrest, htag, hplace, -⟩ := hbehind 4 _ List.mem_cons_self
  exact ⟨hlines, hfound, ⟨hordered, hcount⟩, before, run, rest, hrun, hrest, htag, hplace⟩

def farLine : Line := "// ".toList ++ farText

/-- A file in which a run names a line by a number of 4301 digits, and a later run carries the
tag. -/
def farAndTagged : List Line :=
  [farLine, "x.y;".toList, "// @validation-ignore null-access".toList, "p.q;".toList]

theorem lf_not_mem_farAndTagged : ∀ l ∈ farAndTagged, '\n' ∉ l := by
  obtain ⟨d, -, htext⟩ := exists_tooLong
  have hfar : '\n' ∉ farLine := by
    rw [farLine, List.mem_append, not_or, ← htext]
    exact ⟨by decide, d.lf_not_mem_text⟩
  have hothers : ∀ l ∈ ["x.y;".toList, "// @validation-ignore null-access".toList, "p.q;".toList],
      '\n' ∉ l := by decide
  exact List.forall_mem_cons.mpr ⟨hfar, hothers⟩

/-- One line that names another by a number of 4301 digits, and no marker of the file is found. -/
theorem far_line_loses_tags :
    findAll farAndTagged = .error .longNumeral ∧
    ¬ ∀ lines before run rest : List Line, (∀ l ∈ lines, '\n' ∉ l) → IsRun lines before run rest →
      rest ≠ [] → (∃ l ∈ run, CarriesTag (commentText l)) →
      ∃ marked, findAll lines = .ok marked ∧
        (marked.map Prod.fst).count ((before.length + run.length + 1 : Nat) : Int) = 1 := by
  obtain ⟨d, hlong, hd⟩ := exists_tooLong
  have hwrites : Writes farLine d.text := ⟨[], isPad_nil, by rw [hd]; rfl⟩
  obtain ⟨hcomment, htext⟩ := hwrites.commentText?_eq d.lf_not_mem_text
  have hfar : IsComment farLine := by
    by_contra hnone
    rw [commentText?_of_not_slashes hnone] at hcomment
    cases hcomment
  have hcode : ¬ IsComment "x.y;".toList ∧ ¬ IsComment "p.q;".toList ∧
      IsComment "// @validation-ignore null-access".toList := by
    unfold IsComment
    decide
  have hfarRun : IsRun farAndTagged [] [farLine] (farAndTagged.drop 1) :=
    ⟨rfl, List.cons_ne_nil _ _, by simpa using hfar, nofun, by rintro _ ⟨⟩; exact hcode.1⟩
  have htagRun :
      IsRun farAndTagged (farAndTagged.take 2) ["// @validation-ignore null-access".toList]
      ["p.q;".toList] :=
    ⟨rfl, List.cons_ne_nil _ _, by simpa using hcode.2.2, by rintro _ ⟨⟩; exact hcode.1,
      by rintro _ ⟨⟩; exact hcode.2.1⟩
  have hcarries : CarriesTag (commentText "// @validation-ignore null-access".toList) :=
    ⟨[], " ".toList, 'n', "ull-access".toList, by decide, by decide, isPad_blank,
      by decide⟩
  have hread : Marker.consumer farAndTagged 2 = .error .longNumeral := by
    refine (hfarRun.consumer lf_not_mem_farAndTagged).trans ?_
    rw [List.map_singleton, htext, readConsumers, d.readConsumer_of_tooLong hlong]
  have hfault : findAll farAndTagged = .error .longNumeral :=
    findAll_eq_error_iff.mpr
      ⟨rfl, 1, "x.y;".toList, rfl, commentText?_of_not_slashes hcode.1, hread⟩
  refine ⟨hfault, fun hclaim => ?_⟩
  obtain ⟨marked, hmarked, -⟩ :=
    hclaim _ _ _ _ lf_not_mem_farAndTagged htagRun (List.cons_ne_nil _ _)
    ⟨_, List.mem_singleton_self _, hcarries⟩
  rw [hfault] at hmarked
  cases hmarked

end NullAccess.Marker
