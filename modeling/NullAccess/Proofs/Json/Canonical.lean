import Mathlib.Data.List.Sort
import Mathlib.Data.String.Basic
import NullAccess.Proofs.Json.RoundTrip
import NullAccess.Text.Lines

/-!
# One value, one text

Two values are alike when they are equal up to the order of fields, in every object at every level
(`Alike`).  Reading the canonical text of a value gives a value that is alike, and a text shows no
more of a value than that: alike values have one text, and values with one text are alike
(`canonical_text_determines_value`).

The text of a value holds no carriage return and does not end in a line feed, for both are escaped
inside strings and stand nowhere else at its end.  So unifying its line ends changes nothing, and
completing its last line adds the one line feed that it ends in.
-/

namespace NullAccess

namespace Text

/-- A text with its line ends unified and its last line ended. -/
def completed (t : List Char) : List Char :=
  if (unifyEnds t).getLast? = some '\n' then unifyEnds t else unifyEnds t ++ ['\n']

end Text

namespace Json

/-! ## Values that differ in the order of fields -/

/-- Equal up to the order of the fields of every object. -/
inductive Alike : Json → Json → Prop where
  | null : Alike null null
  | bool (b : Bool) : Alike (bool b) (bool b)
  | int (n : Int) : Alike (int n) (int n)
  | str (s : String) : Alike (str s) (str s)
  | arr {xs ys : List Json} (length : xs.length = ys.length)
      (items : ∀ (i : Nat) (x y : Json), xs[i]? = some x → ys[i]? = some y → Alike x y) :
      Alike (arr xs) (arr ys)
  | obj {xs ys : List (String × Json)}
      (names : ∀ name, name ∈ xs.map Prod.fst ↔ name ∈ ys.map Prod.fst)
      (values : ∀ name v w, (name, v) ∈ xs → (name, w) ∈ ys → Alike v w) :
      Alike (obj xs) (obj ys)

variable {v w u : Json}

theorem Alike.symm (h : Alike v w) : Alike w v := by
  induction h with
  | null => exact .null
  | bool b => exact .bool b
  | int n => exact .int n
  | str s => exact .str s
  | arr length _ ih => exact .arr length.symm fun i x y hx hy => ih i y x hy hx
  | obj names _ ih =>
    exact .obj (fun name => (names name).symm) fun name v w hv hw => ih name w v hw hv

theorem Alike.trans (h : Alike v w) (h' : Alike w u) : Alike v u := by
  induction h generalizing u with
  | null => exact h'
  | bool b => exact h'
  | int n => exact h'
  | str s => exact h'
  | @arr xs ys length _ ih =>
    cases h' with
    | @arr _ zs length' items' =>
      refine .arr (length.trans length') fun i x z hx hz => ?_
      obtain ⟨hlt, -⟩ := List.getElem?_eq_some_iff.mp hx
      have hlt' : i < ys.length := length ▸ hlt
      have hy : ys[i]? = some ys[i] := List.getElem?_eq_getElem hlt'
      exact ih i x _ hx hy (items' i _ z hy hz)
  | @obj xs ys names _ ih =>
    cases h' with
    | @obj _ zs names' values' =>
      refine .obj (fun name => (names name).trans (names' name)) fun name v u hv hu => ?_
      have hname : name ∈ ys.map Prod.fst := (names name).mp (List.mem_map.mpr ⟨_, hv, rfl⟩)
      obtain ⟨⟨_, w⟩, hw, rfl⟩ := List.mem_map.mp hname
      exact ih _ v w hv hw (values' _ w u hw hu)

theorem mem_sorted_fields {fields : List (String × Json)} {name : String} :
    (name, w) ∈ (sortFields fields).map (fun field => (field.1, sorted field.2)) ↔
      ∃ v, (name, v) ∈ fields ∧ w = sorted v := by
  rw [List.mem_map]
  constructor
  · rintro ⟨⟨n, v⟩, hmem, heq⟩
    cases heq
    exact ⟨v, (sortFields_perm fields).mem_iff.mp hmem, rfl⟩
  · rintro ⟨v, hmem, rfl⟩
    exact ⟨(name, v), (sortFields_perm fields).mem_iff.mpr hmem, rfl⟩

theorem map_fst_sorted_fields (fields : List (String × Json)) :
    ((sortFields fields).map fun field => (field.1, sorted field.2)).map Prod.fst =
      (sortFields fields).map Prod.fst := by
  rw [List.map_map]
  rfl

/-- Where every name occurs once, sorting gives a value that is alike. -/
theorem Plain.alike_sorted (h : Plain v) : Alike v (sorted v) := by
  induction h with
  | null => exact .null
  | bool b => exact .bool b
  | int n => exact .int n
  | str s => exact .str s
  | @arr items _ ih =>
    rw [sorted_arr]
    refine .arr (List.length_map _).symm fun i x y hx hy => ?_
    rw [List.getElem?_map, hx, Option.map_some, Option.some.injEq] at hy
    rw [← hy]
    exact ih x (List.mem_of_getElem? hx)
  | @obj fields names _ ih =>
    rw [sorted_obj]
    refine .obj (fun name => ?_) fun name v w hv hw => ?_
    · rw [map_fst_sorted_fields, ((sortFields_perm fields).map Prod.fst).mem_iff]
    · obtain ⟨v', hv', rfl⟩ := mem_sorted_fields.mp hw
      rw [Named.eq_of_mem names hv' hv]
      exact ih (name, v) hv

theorem Plain.sorted (h : Plain v) : Plain (sorted v) := by
  induction h with
  | null => exact .null
  | bool b => exact .bool b
  | int n => exact .int n
  | str s => exact .str s
  | @arr items _ ih =>
    rw [sorted_arr]
    exact .arr (List.forall_mem_map.mpr ih)
  | @obj fields names _ ih =>
    rw [sorted_obj]
    refine .obj ?_ (Prod.forall.mpr fun name w hw => ?_)
    · rw [map_fst_sorted_fields]
      exact nodup_sortFields names
    · obtain ⟨v, hv, rfl⟩ := mem_sorted_fields.mp hw
      exact ih (name, v) hv

/-! ## Alike values have one text -/

theorem pairwise_sortFields {α : Type} (fields : List (String × α)) :
    (sortFields fields).Pairwise fun a b => a.1 ≤ b.1 := by
  have hpairs : (sortFields fields).Pairwise fun a b => (!decide (b.1 < a.1)) = true := by
    apply List.pairwise_mergeSort
    · intro a b c hab hbc
      rw [Bool.not_eq_true', decide_eq_false_iff_not, not_lt] at *
      exact hab.trans hbc
    · intro a b
      simp only [Bool.or_eq_true, Bool.not_eq_true', decide_eq_false_iff_not, not_lt]
      exact le_total a.1 b.1
  apply hpairs.imp
  intro a b hab
  rwa [Bool.not_eq_true', decide_eq_false_iff_not, not_lt] at hab

/-- Where every name occurs once, the order of the fields before the sort does not matter. -/
theorem sortFields_eq_of_perm {α : Type} {xs ys : List (String × α)} (h : xs.Perm ys)
    (hnames : (xs.map Prod.fst).Nodup) : sortFields xs = sortFields ys := by
  have hperm : (sortFields xs).Perm (sortFields ys) :=
    ((sortFields_perm xs).trans h).trans (sortFields_perm ys).symm
  refine hperm.eq_of_pairwise ?_ (pairwise_sortFields xs) (pairwise_sortFields ys)
  intro a b ha hb hab hba
  have hname : a.1 = b.1 := le_antisymm hab hba
  have ha' : (a.1, a.2) ∈ xs := (sortFields_perm xs).mem_iff.mp ha
  have hb' : (a.1, b.2) ∈ xs := by
    rw [hname]
    exact h.mem_iff.mpr ((sortFields_perm ys).mem_iff.mp hb)
  exact Prod.ext hname (Named.eq_of_mem hnames ha' hb')

theorem nodup_renderFields {fields : List (String × Json)}
    (h : (fields.map Prod.fst).Nodup) (n : Nat) :
    ((renderFields n fields).map Prod.fst).Nodup := by
  rw [renderFields_eq, List.map_map]
  exact h

theorem mem_renderFields {fields : List (String × Json)} {n : Nat} {name : String} {t : List Char} :
    (name, t) ∈ renderFields n fields ↔ ∃ v, (name, v) ∈ fields ∧ renderAt n v = t := by
  rw [renderFields_eq, List.mem_map, Prod.exists]
  simp only [Prod.mk.injEq]
  constructor
  · rintro ⟨_, v, hmem, rfl, ht⟩
    exact ⟨v, hmem, ht⟩
  · rintro ⟨v, hmem, ht⟩
    exact ⟨name, v, hmem, rfl, ht⟩

/-- Fields of one object are among those of another, as texts, when the second has their names with
values of the same text. -/
theorem renderFields_subset {xs ys : List (String × Json)} {n : Nat} {name : String} {t : List Char}
    (hnames : name ∈ xs.map Prod.fst → name ∈ ys.map Prod.fst)
    (hvalues : ∀ v w, (name, v) ∈ xs → (name, w) ∈ ys → renderAt n v = renderAt n w)
    (h : (name, t) ∈ renderFields n xs) : (name, t) ∈ renderFields n ys := by
  obtain ⟨v, hv, rfl⟩ := mem_renderFields.mp h
  obtain ⟨⟨_, w⟩, hw, rfl⟩ := List.mem_map.mp (hnames (List.mem_map.mpr ⟨_, hv, rfl⟩))
  exact mem_renderFields.mpr ⟨w, hw, (hvalues v w hv hw).symm⟩

theorem Alike.renderAt_eq (h : Alike v w) (hv : Plain v) (hw : Plain w) (n : Nat) :
    renderAt n v = renderAt n w := by
  induction h generalizing n with
  | null => rfl
  | bool b => rfl
  | int n => rfl
  | str s => rfl
  | @arr xs ys length _ ih =>
    rw [plain_arr_iff] at hv hw
    rw [renderAt_arr, renderAt_arr]
    apply congrArg
    apply List.ext_getElem
    · rw [List.length_map, List.length_map, length]
    · intro i hx hy
      rw [List.length_map] at hx hy
      rw [List.getElem_map, List.getElem_map]
      exact ih i _ _ (List.getElem?_eq_getElem hx) (List.getElem?_eq_getElem hy)
        (hv _ (List.getElem_mem hx)) (hw _ (List.getElem_mem hy)) (n + 1)
  | @obj xs ys names _ ih =>
    rw [plain_obj_iff] at hv hw
    have htexts : ∀ name v w, (name, v) ∈ xs → (name, w) ∈ ys →
        renderAt (n + 1) v = renderAt (n + 1) w := fun name v w hx hy =>
      ih name v w hx hy (hv.2 _ hx) (hw.2 _ hy) (n + 1)
    -- The fields are the same texts in another order, and sorting forgets the order.
    have hperm : (renderFields (n + 1) xs).Perm (renderFields (n + 1) ys) := by
      rw [List.perm_ext_iff_of_nodup (nodup_renderFields hv.1 _).of_map
        (nodup_renderFields hw.1 _).of_map, Prod.forall]
      intro name t
      exact ⟨renderFields_subset (names name).mp (htexts name),
        renderFields_subset (names name).mpr fun w v hy hx => (htexts name v w hx hy).symm⟩
    rw [renderAt, renderAt, sortFields_eq_of_perm hperm (nodup_renderFields hv.1 _)]

theorem canonical_eq_iff (hv : Plain v) (hw : Plain w) : canonical v = canonical w ↔ Alike v w := by
  constructor
  · intro heq
    have hread := parse?_canonical hv
    rw [heq, parse?_canonical hw] at hread
    have hsorted : sorted w = sorted v := Option.some.inj hread
    have hback : Alike (sorted v) w := by
      rw [← hsorted]
      exact hw.alike_sorted.symm
    exact hv.alike_sorted.trans hback
  · intro halike
    rw [canonical, canonical, halike.renderAt_eq hv hw 0]

/-! ## Line ends -/

theorem cr_not_mem_escape (c : Char) : '\r' ∉ escape c := by
  have hhex : ∀ n < 16, hexDigit n ≠ '\r' := by decide
  unfold escape
  split_ifs with _ _ _ hreturn
  iterate 7 decide
  · have hhigh := hhex (c.toNat / 16) (by omega)
    have hlow := hhex (c.toNat % 16) (by omega)
    simp [hhigh.symm, hlow.symm]
  · exact fun hmem => hreturn (List.mem_singleton.mp hmem).symm

theorem cr_not_mem_quote (s : String) : '\r' ∉ quote s := by
  have hinside : '\r' ∉ s.toList.flatMap escape := by
    rw [List.mem_flatMap]
    rintro ⟨c, -, hmem⟩
    exact cr_not_mem_escape c hmem
  simp [quote, hinside]

theorem cr_not_mem_newline (n : Nat) : '\r' ∉ newline n := by
  simp [newline, List.mem_replicate]

theorem cr_not_mem_bracket {opening closing : Char} {texts : List (List Char)} (n : Nat)
    (hopening : '\r' ≠ opening) (hclosing : '\r' ≠ closing) (h : ∀ t ∈ texts, '\r' ∉ t) :
    '\r' ∉ bracket n opening closing texts := by
  cases texts with
  | nil => simp [bracket, hopening, hclosing]
  | cons first rest =>
    obtain ⟨hfirst, hrest⟩ := List.forall_mem_cons.mp h
    have hothers : '\r' ∉ rest.flatMap fun t => ',' :: newline (n + 1) ++ t := by
      rw [List.mem_flatMap]
      rintro ⟨t, ht, hmem⟩
      simp [cr_not_mem_newline, hrest t ht] at hmem
    simp only [bracket, List.mem_append, List.mem_cons, List.not_mem_nil, not_or]
    exact ⟨⟨⟨⟨⟨hopening, cr_not_mem_newline _⟩, hfirst⟩, hothers⟩, cr_not_mem_newline _⟩, hclosing,
      id⟩

theorem cr_not_mem_renderAt (h : Plain v) (n : Nat) : '\r' ∉ renderAt n v := by
  induction h generalizing n with
  | null => simp [renderAt]
  | bool b => cases b <;> simp [renderAt]
  | int k =>
    have hdigits : ∀ m, '\r' ∉ Nat.toDigits 10 m := fun m hmem =>
      absurd (all_isDigit_toDigits m _ hmem) (by decide)
    cases k with
    | ofNat m => exact hdigits m
    | negSucc m => exact List.not_mem_cons_of_ne_of_not_mem (by decide) (hdigits (m + 1))
  | str s => exact cr_not_mem_quote s
  | arr _ ih =>
    rw [renderAt_arr]
    exact cr_not_mem_bracket n (by decide) (by decide)
      (List.forall_mem_map.mpr fun v hv => ih v hv (n + 1))
  | obj _ _ ih =>
    rw [renderAt_obj]
    refine cr_not_mem_bracket n (by decide) (by decide)
      (List.forall_mem_map.mpr fun field hfield => ?_)
    have hvalue := ih field ((sortFields_perm _).mem_iff.mp hfield) (n + 1)
    simp [member, cr_not_mem_quote, hvalue]

theorem getLast?_bracket (n : Nat) (opening closing : Char) (texts : List (List Char)) :
    (bracket n opening closing texts).getLast? = some closing := by
  cases texts with
  | nil => rfl
  | cons first rest => rw [bracket, List.getLast?_append, List.getLast?_singleton, Option.some_or]

theorem getLast?_renderAt_ne (h : Plain v) (n : Nat) : (renderAt n v).getLast? ≠ some '\n' := by
  cases h with
  | null => simp [renderAt]
  | bool b => cases b <;> simp [renderAt]
  | int k =>
    have hdigits : ∀ m, (Nat.toDigits 10 m).getLast? ≠ some '\n' := fun m heq =>
      absurd (all_isDigit_toDigits m _ (List.mem_of_getLast? heq)) (by decide)
    cases k with
    | ofNat m => exact hdigits m
    | negSucc m =>
      rw [renderAt, renderInt, List.getLast?_cons_of_ne_nil Nat.toDigits_ne_nil]
      exact hdigits (m + 1)
  | str s =>
    rw [renderAt, quote, List.getLast?_append]
    simp
  | arr _ => simp [renderAt_arr, getLast?_bracket]
  | obj _ _ => simp [renderAt_obj, getLast?_bracket]

theorem completed_renderAt (h : Plain v) :
    Text.completed (renderAt 0 v) = (canonical v).toList := by
  rw [Text.completed, Text.unifyEnds_of_not_mem (cr_not_mem_renderAt h 0),
    if_neg (getLast?_renderAt_ne h 0), canonical, String.toList_ofList]

/-- The canonical text of a value is read back as a value that is alike, and is that of the alike
values only.  It holds no carriage return, so that unifying line ends does not alter it, and ends in
one line feed. -/
theorem canonical_text_determines_value (hv : Plain v) (hw : Plain w) :
    (∃ u, parse? (canonical v).toList = some u ∧ Plain u ∧ Alike v u) ∧
      (canonical v = canonical w ↔ Alike v w) ∧
      (canonical v).toList = Text.completed (renderAt 0 v) ∧
      '\r' ∉ (canonical v).toList ∧
      Text.unifyEnds (canonical v).toList = (canonical v).toList ∧
      ∃ t, (canonical v).toList = t ++ ['\n'] ∧ t.getLast? ≠ some '\n' := by
  have hlines : (canonical v).toList = renderAt 0 v ++ ['\n'] := String.toList_ofList
  have hreturn : '\r' ∉ (canonical v).toList := by
    simp [hlines, cr_not_mem_renderAt hv 0]
  exact ⟨⟨sorted v, parse?_canonical hv, hv.sorted, hv.alike_sorted⟩, canonical_eq_iff hv hw,
    (completed_renderAt hv).symm, hreturn, Text.unifyEnds_of_not_mem hreturn, renderAt 0 v, hlines,
    getLast?_renderAt_ne hv 0⟩

/-- An object inside an array, with a string that holds line ends. -/
theorem canonical_text_determines_value_sample :
    arr [obj [("b", str "\r\n"), ("a", int (-7))]] ≠
      arr [obj [("a", int (-7)), ("b", str "\r\n")]] ∧
      canonical (arr [obj [("b", str "\r\n"), ("a", int (-7))]]) =
        canonical (arr [obj [("a", int (-7)), ("b", str "\r\n")]]) := by
  have hleft : Plain (arr [obj [("b", str "\r\n"), ("a", int (-7))]]) := by simp
  have hright : Plain (arr [obj [("a", int (-7)), ("b", str "\r\n")]]) := by simp
  have hfields : Alike (obj [("b", str "\r\n"), ("a", int (-7))])
      (obj [("a", int (-7)), ("b", str "\r\n")]) := by
    refine .obj (fun name => ?_) fun name v w hv hw => ?_
    · simp [or_comm]
    · simp only [List.mem_cons, Prod.mk.injEq, List.not_mem_nil, or_false] at hv hw
      rcases hv with ⟨rfl, rfl⟩ | ⟨rfl, rfl⟩ <;> rcases hw with ⟨hname, rfl⟩ | ⟨hname, rfl⟩
      · exact absurd hname (by decide)
      · exact .str _
      · exact .int _
      · exact absurd hname (by decide)
  have halike : Alike (arr [obj [("b", str "\r\n"), ("a", int (-7))]])
      (arr [obj [("a", int (-7)), ("b", str "\r\n")]]) := by
    refine .arr rfl fun i x y hx hy => ?_
    cases i with
    | zero =>
      cases hx
      cases hy
      exact hfields
    | succ i => cases hx
  exact ⟨by simp, (canonical_text_determines_value hleft hright).2.1.mpr halike⟩

end Json

end NullAccess
