import NullAccess.Proofs.Drift.Stages

/-!
# Finding all markers

The walk that finds the marked lines of a file carries the comments above the current line with it.
What it finds at a line is the marker that is read above that line alone, and so it reports the
lines that are no comments and have a found marker above them, in their order (`findAll_spec`).  It
comes to its end unless such a marker holds a number that is too long (`findAll_eq_error_iff`).
-/

namespace NullAccess.Marker

variable {lines done rest : List Line} {l : Line} {n : Int} {m : ConsumerMarker} {f : Fault}
  {marked : List (Int × ConsumerMarker)}

/-! ## Blocks -/

theorem blockAbove_eq (hpos : 1 ≤ n) (hle : n ≤ lines.length + 1) :
    blockAbove lines n = .ok (.above n (leadingTexts (lines.take (n - 1).toNat).reverse)) := by
  unfold blockAbove
  by_cases hone : n ≤ 1
  · have hn : (n - 1).toNat = 0 := by omega
    rw [if_pos hone, hn]
    rfl
  · have hwithin : ¬ lines.length < (n - 1).toNat := by omega
    rw [if_neg hone, if_neg hwithin]

/-- The marker above a line, where the lines before it are given apart. -/
theorem consumer_append (done rest : List Line) :
    consumer (done ++ rest) (done.length + 1) =
      consumerOf (.above (done.length + 1) (leadingTexts done.reverse)) := by
  have hpos : (1 : Int) ≤ done.length + 1 := by omega
  have hle : (done.length + 1 : Int) ≤ (done ++ rest).length + 1 := by
    rw [List.length_append]
    omega
  have hdone : ((done.length + 1 : Int) - 1).toNat = done.length := by omega
  rw [consumer, blockAbove_eq hpos hle, hdone, List.take_left]

theorem leadingTexts_concat_comment {t : List Char} (h : commentText? l = some t) :
    leadingTexts (done ++ [l]).reverse = t :: leadingTexts done.reverse := by
  rw [List.reverse_append, List.reverse_singleton, List.singleton_append, leadingTexts, h]

theorem leadingTexts_concat_code (h : commentText? l = none) :
    leadingTexts (done ++ [l]).reverse = [] := by
  rw [List.reverse_append, List.reverse_singleton, List.singleton_append, leadingTexts, h]

/-! ## The walk -/

theorem findFrom_comment {t : List Char} (h : commentText? l = some t) :
    findFrom (leadingTexts done.reverse) (done.length + 1) (l :: rest) =
      findFrom (leadingTexts (done ++ [l]).reverse) ((done ++ [l]).length + 1) rest := by
  rw [findFrom, h, leadingTexts_concat_comment h, List.length_append, List.length_singleton,
    Int.natCast_add]
  rfl

theorem findFrom_code (h : commentText? l = none) :
    findFrom (leadingTexts done.reverse) (done.length + 1) (l :: rest) =
      match consumer (done ++ l :: rest) (done.length + 1) with
      | .error f => .error f
      | .ok m =>
        match findFrom (leadingTexts (done ++ [l]).reverse) ((done ++ [l]).length + 1) rest with
        | .error f => .error f
        | .ok later =>
          .ok (if !(leadingTexts done.reverse).isEmpty && m.found then
            ((done.length + 1 : Int), m) :: later else later) := by
  rw [findFrom, h, consumer_append, leadingTexts_concat_code h, List.length_append,
    List.length_singleton, Int.natCast_add]
  rfl

/-- The walk stops at a line that is no comment: it reads the marker above it, reports the line if
that marker was found, and goes on.  Without a comment above the line no marker is found. -/
theorem findFrom_code_ok (h : commentText? l = none)
    (hfrom : findFrom (leadingTexts done.reverse) (done.length + 1) (l :: rest) = .ok marked) :
    ∃ here later, consumer (done ++ l :: rest) (done.length + 1) = .ok here ∧
      findFrom (leadingTexts (done ++ [l]).reverse) ((done ++ [l]).length + 1) rest = .ok later ∧
      marked = if here.found then ((done.length + 1 : Int), here) :: later else later := by
  rw [findFrom_code h] at hfrom
  cases hconsumer : consumer (done ++ l :: rest) (done.length + 1) with
  | error f =>
    rw [hconsumer] at hfrom
    cases hfrom
  | ok here =>
    cases hlater :
        findFrom (leadingTexts (done ++ [l]).reverse) ((done ++ [l]).length + 1) rest with
    | error f =>
      rw [hconsumer, hlater] at hfrom
      cases hfrom
    | ok later =>
      rw [hconsumer, hlater] at hfrom
      have habove : (!(leadingTexts done.reverse).isEmpty && here.found) = here.found := by
        cases htexts : leadingTexts done.reverse with
        | cons t ts => rfl
        | nil =>
          rw [consumer_append, htexts] at hconsumer
          cases hconsumer
          rfl
      refine ⟨here, later, rfl, rfl, ?_⟩
      rw [← habove]
      exact (Except.ok.inj hfrom).symm

/-- The line behind `k` others is no comment, and a marker was found above it. -/
def IsMarked (lines : List Line) (k : Nat) (m : ConsumerMarker) : Prop :=
  (∃ l, lines[k]? = some l ∧ commentText? l = none) ∧
    consumer lines (k + 1 : Nat) = .ok m ∧ m.found = true

theorem isMarked_done_iff {k : Nat} :
    (done.length ≤ k ∧ IsMarked (done ++ l :: rest) k m) ↔
      (k = done.length ∧ commentText? l = none ∧
        consumer (done ++ l :: rest) (done.length + 1 : Nat) = .ok m ∧ m.found = true) ∨
      ((done ++ [l]).length ≤ k ∧ IsMarked (done ++ l :: rest) k m) := by
  have hl : (done ++ l :: rest)[done.length]? = some l := by simp
  have hlength : (done ++ [l]).length = done.length + 1 := by simp
  rw [hlength]
  constructor
  · rintro ⟨hle, hmarked⟩
    rcases Nat.eq_or_lt_of_le hle with rfl | hlt
    · obtain ⟨⟨l', hl', hcode⟩, hmarker⟩ := hmarked
      obtain rfl : l = l' := Option.some_inj.mp (hl.symm.trans hl')
      exact .inl ⟨rfl, hcode, hmarker⟩
    · exact .inr ⟨hlt, hmarked⟩
  · rintro (⟨rfl, hcode, hmarker⟩ | ⟨hlt, hmarked⟩)
    · exact ⟨Nat.le_refl _, ⟨l, hl, hcode⟩, hmarker⟩
    · exact ⟨Nat.le_of_lt hlt, hmarked⟩

/-- The walk reports the marked lines that lie ahead, in their order. -/
theorem findFrom_spec
    (h : findFrom (leadingTexts done.reverse) (done.length + 1) rest = .ok marked) :
    (marked.map Prod.fst).Pairwise (· < ·) ∧
      ∀ n m, (n, m) ∈ marked ↔
        ∃ k : Nat, n = (k + 1 : Nat) ∧ done.length ≤ k ∧ IsMarked (done ++ rest) k m := by
  induction rest generalizing done marked with
  | nil =>
    cases h
    refine ⟨List.Pairwise.nil, fun n m => iff_of_false List.not_mem_nil ?_⟩
    rintro ⟨k, -, hk, ⟨l, hl, -⟩, -⟩
    rw [List.append_nil, List.getElem?_eq_none hk] at hl
    cases hl
  | cons l rest ih =>
    have hstep : done ++ l :: rest = done ++ [l] ++ rest := by simp
    simp only [isMarked_done_iff]
    -- A comment line joins the block above the next line; any other line ends the block.
    cases hcomment : commentText? l with
    | some t =>
      rw [findFrom_comment hcomment] at h
      simp only [reduceCtorEq, false_and, and_false, false_or]
      rw [hstep]
      exact ih h
    | none =>
      obtain ⟨here, later, hconsumer, hlater, rfl⟩ := findFrom_code_ok hcomment h
      obtain ⟨hordered, hmem⟩ := ih hlater
      rw [← hstep] at hmem
      have hplace : ((done.length + 1 : Nat) : Int) = done.length + 1 := by omega
      simp only [hplace, hconsumer, Except.ok.injEq, true_and, and_or_left, exists_or, ← hmem]
      cases hfound : here.found with
      | false =>
        simp only [Bool.false_eq_true, if_false]
        refine ⟨hordered, fun n m => ⟨.inr, ?_⟩⟩
        rintro (⟨k, -, -, rfl, hm⟩ | hm)
        · rw [hfound] at hm
          cases hm
        · exact hm
      | true =>
        simp only [if_true, List.map_cons, List.pairwise_cons, List.mem_cons]
        refine ⟨⟨fun n hn => ?_, hordered⟩, fun n m => or_congr_left ⟨?_, ?_⟩⟩
        · obtain ⟨⟨n', m⟩, hm, rfl⟩ := List.mem_map.mp hn
          obtain ⟨k, rfl, hk, -⟩ := (hmem n' m).mp hm
          rw [List.length_append, List.length_singleton] at hk
          exact Int.ofNat_lt.mpr (Nat.lt_succ_of_le hk)
        · rintro ⟨⟩
          exact ⟨done.length, hplace.symm, rfl, rfl, hfound⟩
        · rintro ⟨k, rfl, rfl, rfl, -⟩
          rw [hplace]

theorem exists_getElem?_cons {α : Type} {a : α} {as : List α} {P : Nat → α → Prop} :
    (∃ k b, (a :: as)[k]? = some b ∧ P k b) ↔
      P 0 a ∨ ∃ k b, as[k]? = some b ∧ P (k + 1) b := by
  constructor
  · rintro ⟨k, b, hk, hb⟩
    cases k with
    | zero =>
      obtain rfl : a = b := Option.some_inj.mp hk
      exact .inl hb
    | succ k => exact .inr ⟨k, b, hk, hb⟩
  · rintro (ha | ⟨k, b, hk, hb⟩)
    · exact ⟨0, a, rfl, ha⟩
    · exact ⟨k + 1, b, hk, hb⟩

theorem findFrom_eq_error_iff :
    findFrom (leadingTexts done.reverse) (done.length + 1) rest = .error f ↔
      f = .longNumeral ∧ ∃ k l, rest[k]? = some l ∧ commentText? l = none ∧
        consumer (done ++ rest) (done.length + k + 1 : Nat) = .error .longNumeral := by
  induction rest generalizing done with
  | nil => simp [findFrom]
  | cons l rest ih =>
    have hstep : done ++ l :: rest = done ++ [l] ++ rest := by simp
    have hplace : ((done.length + 0 + 1 : Nat) : Int) = done.length + 1 := by omega
    -- A fault further on is one of the rest, seen from the line behind this one.
    have hlater : findFrom (leadingTexts (done ++ [l]).reverse) ((done ++ [l]).length + 1) rest =
        .error f ↔ f = .longNumeral ∧ ∃ k l', rest[k]? = some l' ∧ commentText? l' = none ∧
          consumer (done ++ l :: rest) (done.length + (k + 1) + 1 : Nat) = .error .longNumeral := by
      have hcount : ∀ k : Nat, (done ++ [l]).length + k + 1 = done.length + (k + 1) + 1 := by
        intro k
        rw [List.length_append, List.length_singleton]
        omega
      rw [ih, hstep]
      simp only [hcount]
    rw [exists_getElem?_cons (P := fun k l' => commentText? l' = none ∧
      consumer (done ++ l :: rest) (done.length + k + 1 : Nat) = .error .longNumeral), hplace]
    cases hl : commentText? l with
    | some t => simp only [findFrom_comment hl, hlater, reduceCtorEq, false_and, false_or]
    | none =>
      rw [findFrom_code hl]
      cases hconsumer : consumer (done ++ l :: rest) (done.length + 1) with
      | error g =>
        have hg : g = .longNumeral := by
          rw [consumer_append] at hconsumer
          exact Validator.readConsumers_eq_error hconsumer
        simp [hg, eq_comm]
      | ok here =>
        simp only [reduceCtorEq, and_false, false_or, ← hlater]
        cases findFrom (leadingTexts (done ++ [l]).reverse) ((done ++ [l]).length + 1) rest <;> simp

/-! ## Categories -/

/-- A line with the tag gives the marker its category.  Any other line leaves the category as it is,
and whether the marker was found. -/
theorem readConsumer_ok {c c' : ConsumerMarker} {t : List Char} (h : readConsumer c t = .ok c') :
    (∃ tag, ignoreTag.find? t = some tag ∧ c'.found = true ∧
      c'.category = some (String.ofList (tag.group 1))) ∨
    (ignoreTag.find? t = none ∧ c'.found = c.found ∧ c'.category = c.category) := by
  unfold readConsumer at h
  cases hignore : ignoreTag.find? t with
  | some tag =>
    rw [hignore] at h
    cases h
    exact .inl ⟨tag, rfl, rfl, rfl⟩
  | none =>
    rw [hignore] at h
    refine .inr ⟨rfl, ?_⟩
    simp only at h
    split at h
    · cases h
      exact ⟨rfl, rfl⟩
    · split at h
      · rename_i found _
        cases hd : dependencyOf found with
        | error f =>
          rw [hd] at h
          cases h
        | ok d =>
          rw [hd] at h
          cases h
          exact ⟨rfl, rfl⟩
      · split at h
        · cases h
          exact ⟨rfl, rfl⟩
        · cases h
          exact ⟨rfl, rfl⟩

theorem category_of_readConsumer {c : ConsumerMarker} {t : List Char}
    (hc : c.found = true → c.category.isSome = true) (h : readConsumer c t = .ok m) :
    m.found = true → m.category.isSome = true := by
  rcases readConsumer_ok h with ⟨tag, -, -, hcategory⟩ | ⟨-, hfound, hcategory⟩
  · intro _
    rw [hcategory]
    rfl
  · rwa [hfound, hcategory]

theorem category_of_readConsumers {c : ConsumerMarker} {ts : List (List Char)}
    (hc : c.found = true → c.category.isSome = true) (h : readConsumers c ts = .ok m) :
    m.found = true → m.category.isSome = true := by
  induction ts generalizing c with
  | nil =>
    cases h
    exact hc
  | cons t rest ih =>
    rw [readConsumers] at h
    cases hfirst : readConsumer c t with
    | error f =>
      rw [hfirst] at h
      cases h
    | ok c' =>
      rw [hfirst] at h
      exact ih (category_of_readConsumer hc hfirst) h

/-- A marker that is found names a category. -/
theorem category_of_consumer (h : consumer lines n = .ok m) (hfound : m.found = true) :
    m.category.isSome = true := by
  unfold consumer at h
  cases hblock : blockAbove lines n with
  | error f =>
    rw [hblock] at h
    cases h
  | ok b =>
    rw [hblock] at h
    exact category_of_readConsumers (fun hnone => absurd hnone Bool.false_ne_true) h hfound

/-! ## The marked lines of a file -/

theorem findAll_spec (h : findAll lines = .ok marked) :
    (marked.map Prod.fst).Pairwise (· < ·) ∧
      ∀ n m, (n, m) ∈ marked ↔ ∃ k : Nat, n = (k + 1 : Nat) ∧ IsMarked lines k m := by
  have hfrom : findFrom (leadingTexts [].reverse) (([] : List Line).length + 1) lines =
      .ok marked := h
  simpa using findFrom_spec hfrom

/-- A marked line is a line of the file, and its marker is the one that is read above it. -/
theorem consumer_of_mem_findAll (h : findAll lines = .ok marked) (hm : (n, m) ∈ marked) :
    (1 ≤ n ∧ n ≤ lines.length) ∧ consumer lines n = .ok m ∧ m.found = true := by
  obtain ⟨k, rfl, ⟨l, hl, -⟩, hmarker⟩ := ((findAll_spec h).2 n m).mp hm
  obtain ⟨hlt, -⟩ := List.getElem?_eq_some_iff.mp hl
  exact ⟨by omega, hmarker⟩

theorem findAll_eq_error_iff :
    findAll lines = .error f ↔
      f = .longNumeral ∧ ∃ k l, lines[k]? = some l ∧ commentText? l = none ∧
        consumer lines (k + 1 : Nat) = .error .longNumeral := by
  have hiff :
      findFrom (leadingTexts [].reverse) (([] : List Line).length + 1) lines = .error f ↔ _ :=
    findFrom_eq_error_iff
  simp only [List.length_nil, Nat.zero_add, List.nil_append] at hiff
  exact hiff

end NullAccess.Marker
