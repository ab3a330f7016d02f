import NullAccess.Pattern.Search

/-!
# What a match says about the text

A match never alters the text: what stands before and after its end is what stands before and after
its beginning.  So from a match in a text one reads off what the text holds at its two columns.
-/

namespace NullAccess

/-- The whole text around a place. -/
def Place.whole (s : Place) : List Char := s.before.reverse ++ s.after

namespace Pattern

variable {a b : Pattern} {s u : Place} {t w : List Char} {m : Match}

/-! ## The text stays -/

theorem whole_past? {same : Char → Char → Bool} (h : s.past? same w = some u) :
    u.whole = s.whole := by
  induction w generalizing s with
  | nil =>
    cases h
    rfl
  | cons c w ih =>
    unfold Place.past? at h
    split at h
    · cases h
    · rename_i d r hafter
      split at h
      · rw [ih h]
        simp [Place.whole, hafter]
      · cases h

section Rounds

variable {step : Place → List Place} {R : Place → Place → Prop} (hrefl : ∀ s, R s s)
  (htrans : ∀ {s t u}, R s t → R t u → R s u) (hstep : ∀ s, ∀ u ∈ step s, R s u)

include hrefl htrans hstep

/-- What holds between the beginning and the end of a round holds so of many rounds. -/
theorem rel_rounds (left : List Char) : ∀ s, ∀ u ∈ rounds step left s, R s u := by
  induction left with
  | nil =>
    intro s u hu
    rw [List.mem_singleton.mp hu]
    exact hrefl s
  | cons c left ih =>
    intro s u hu
    rcases List.mem_append.mp hu with hmore | hlast
    · obtain ⟨v, hv, hu⟩ := List.mem_flatMap.mp hmore
      split at hu
      · exact htrans (hstep s v hv) (ih v u hu)
      · rw [List.mem_singleton.mp hu]
        exact hstep s v hv
    · rw [List.mem_singleton.mp hlast]
      exact hrefl s

theorem rel_roundsFew (left : List Char) : ∀ s, ∀ u ∈ roundsFew step left s, R s u := by
  induction left with
  | nil =>
    intro s u hu
    rw [List.mem_singleton.mp hu]
    exact hrefl s
  | cons c left ih =>
    intro s u hu
    rcases List.mem_cons.mp hu with rfl | hmore
    · exact hrefl u
    · obtain ⟨v, hv, hu⟩ := List.mem_flatMap.mp hmore
      split at hu
      · exact htrans (hstep s v hv) (ih v u hu)
      · rw [List.mem_singleton.mp hu]
        exact hstep s v hv

theorem rel_roundsOf (n : Nat) : ∀ s, ∀ u ∈ roundsOf step n s, R s u := by
  induction n with
  | zero =>
    intro s u hu
    rw [List.mem_singleton.mp hu]
    exact hrefl s
  | succ n ih =>
    intro s u hu
    obtain ⟨v, hv, hu⟩ := List.mem_flatMap.mp hu
    exact htrans (hstep s v hv) (ih v u hu)

end Rounds

theorem whole_of_mem_ends (a : Pattern) : ∀ s, ∀ u ∈ a.ends s, u.whole = s.whole := by
  let R (s u : Place) : Prop := u.whole = s.whole
  have hrefl : ∀ s, R s s := fun _ => rfl
  have htrans : ∀ {s t u}, R s t → R t u → R s u := fun h h' => h'.trans h
  induction a with
  | one p =>
    intro s u hu
    unfold ends at hu
    split at hu
    · cases hu
    · rename_i c r hafter
      split at hu
      · rw [List.mem_singleton.mp hu]
        simp [Place.whole, hafter]
      · cases hu
  | seq a b iha ihb =>
    intro s u hu
    obtain ⟨v, hv, hu⟩ := List.mem_flatMap.mp hu
    rw [ihb v u hu, iha s v hv]
  | alt a b iha ihb =>
    intro s u hu
    rcases List.mem_append.mp hu with hu | hu
    · exact iha s u hu
    · exact ihb s u hu
  | many a ih => exact fun s => rel_rounds (R := R) hrefl htrans ih _ s
  | few a ih => exact fun s => rel_roundsFew (R := R) hrefl htrans ih _ s
  | times n a ih => exact fun s => rel_roundsOf (R := R) hrefl htrans ih n s
  | upTo n a ih => exact fun s => rel_rounds (R := R) hrefl htrans ih _ s
  | upToFew n a ih => exact fun s => rel_roundsFew (R := R) hrefl htrans ih _ s
  | atomic a ih =>
    intro s u hu
    exact ih s u (List.mem_of_mem_head? (Option.mem_toList.mp hu))
  | group n a ih =>
    intro s u hu
    obtain ⟨v, hv, rfl⟩ := List.mem_map.mp hu
    exact ih s v hv
  | again same n =>
    intro s u hu
    obtain ⟨w, -, hw⟩ := Option.bind_eq_some_iff.mp (Option.mem_toList.mp hu)
    exact whole_past? hw
  | given n a b iha ihb =>
    intro s u hu
    unfold ends at hu
    split at hu
    · exact iha s u hu
    · exact ihb s u hu
  | ahead wanted a _ =>
    intro s u hu
    cases wanted <;> simp only [ends] at hu <;> grind [Place.whole]
  | back wanted n a _ =>
    intro s u hu
    simp only [ends] at hu
    grind [Place.whole]
  | nothing | start | stop | border | behind =>
    intro s u hu
    simp only [ends] at hu
    grind

/-! ## Places -/

theorem drop_column (s : Place) : s.whole.drop s.column = s.after := by
  rw [Place.whole, Place.column, ← List.length_reverse, List.drop_left]

theorem take_column (s : Place) : s.whole.take s.column = s.before.reverse := by
  rw [Place.whole, Place.column, ← List.length_reverse, List.take_left]

theorem column_add_after (s : Place) : s.column + s.after.length = s.whole.length := by
  rw [Place.whole, Place.column, List.length_append, List.length_reverse]

theorem column_le (s : Place) : s.column ≤ s.whole.length := by
  rw [← column_add_after]
  exact Nat.le_add_right _ _

theorem whole_next (s : Place) : s.next.whole = s.whole := by
  unfold Place.next
  split
  · rfl
  · rename_i c r hafter
    simp [Place.whole, hafter]

/-! ## Matches -/

/-- Whether a match is one of the pattern in a text: it starts somewhere in the text and goes to the
preferred end. -/
structure IsMatch (a : Pattern) (t : List Char) (m : Match) : Prop where
  whole : m.first.whole = t
  preferred : (a.ends m.first).head? = some m.last

theorem isMatch_of_matchAt (h : a.matchAt s = some m) : IsMatch a s.whole m := by
  rw [matchAt_eq, Option.map_eq_some_iff] at h
  obtain ⟨u, hu, rfl⟩ := h
  exact ⟨rfl, hu⟩

theorem isMatch_of_findIn {b r : List Char} (h : a.findIn b r = some m) :
    IsMatch a (b.reverse ++ r) m := by
  induction r generalizing b with
  | nil =>
    rw [findIn_nil] at h
    exact isMatch_of_matchAt h
  | cons c r ih =>
    rw [findIn_cons] at h
    cases hhere : a.matchAt ⟨b, c :: r, []⟩ with
    | some found =>
      rw [hhere] at h
      cases h
      exact isMatch_of_matchAt hhere
    | none =>
      rw [hhere] at h
      have hrest : IsMatch a ((c :: b).reverse ++ r) m := ih h
      rwa [List.reverse_cons, List.append_assoc] at hrest

theorem isMatch_of_find? (h : a.find? t = some m) : IsMatch a t m := isMatch_of_findIn h

theorem IsMatch.mem (h : IsMatch a t m) : m.last ∈ a.ends m.first :=
  List.mem_of_mem_head? h.preferred

theorem IsMatch.whole_last (h : IsMatch a t m) : m.last.whole = t := by
  rw [whole_of_mem_ends a _ _ h.mem, h.whole]

namespace IsMatch

theorem startCol_add_after (h : IsMatch a t m) : m.startCol + m.first.after.length = t.length := by
  rw [← h.whole]
  exact column_add_after m.first

theorem stopCol_add_after (h : IsMatch a t m) : m.stopCol + m.last.after.length = t.length := by
  rw [← h.whole_last]
  exact column_add_after m.last

theorem startCol_le (h : IsMatch a t m) : m.startCol ≤ t.length := by
  have hlength := h.startCol_add_after
  omega

theorem stopCol_le (h : IsMatch a t m) : m.stopCol ≤ t.length := by
  have hlength := h.stopCol_add_after
  omega

theorem startCol_lt (h : IsMatch a t m) (hreads : a.reads = true) : m.startCol < t.length := by
  have hlength := h.startCol_add_after
  have hlt := ends_lt hreads h.mem
  omega

end IsMatch

theorem isMatch_of_mem_findAllFrom {n : Nat} (h : m ∈ a.search.findAllFrom n s) :
    IsMatch a s.whole m := by
  induction n generalizing s with
  | zero => cases h
  | succ n ih =>
    unfold Search.findAllFrom at h
    cases hfirst : a.search.findIn false s.before s.after with
    | none =>
      rw [hfirst] at h
      cases h
    | some found =>
      rw [hfirst] at h
      have hfound : IsMatch a s.whole found := isMatch_of_findIn hfirst
      dsimp only at h
      split at h
      · rcases List.mem_cons.mp h with rfl | hrest
        · exact hfound
        · rw [← hfound.whole_last]
          exact ih hrest
      · split at h
        · rw [List.mem_singleton.mp h]
          exact hfound
        · rcases List.mem_cons.mp h with rfl | hrest
          · exact hfound
          · rw [← hfound.whole_last, ← whole_next]
            exact ih hrest

theorem isMatch_of_mem_findAll (h : m ∈ a.findAll t) : IsMatch a t m := isMatch_of_mem_findAllFrom h

/-! ## What the text holds where a match begins and ends -/

theorem mem_ends_seq : u ∈ (a ++ b).ends s ↔ ∃ v ∈ a.ends s, u ∈ b.ends v := List.mem_flatMap

theorem mem_ends_one {p : Char → Bool} :
    u ∈ (one p).ends s ↔
      ∃ c r, s.after = c :: r ∧ p c = true ∧
        u = { s with before := c :: s.before, after := r } := by
  unfold ends
  constructor
  · intro hu
    split at hu
    · cases hu
    · rename_i c r hafter
      split at hu
      · rename_i hp
        exact ⟨c, r, hafter, hp, List.mem_singleton.mp hu⟩
      · cases hu
  · rintro ⟨c, r, hafter, hp, rfl⟩
    simp [hafter, hp]

theorem mem_ends_chr {c : Char} :
    u ∈ (chr c).ends s ↔
      ∃ r, s.after = c :: r ∧ u = { s with before := c :: s.before, after := r } := by
  rw [chr, mem_ends_one]
  constructor
  · rintro ⟨d, r, hafter, hd, rfl⟩
    obtain rfl : d = c := by simpa using hd
    exact ⟨r, hafter, rfl⟩
  · rintro ⟨r, hafter, rfl⟩
    exact ⟨c, r, hafter, by simp, rfl⟩

theorem mem_ends_text :
    u ∈ (text w).ends s ↔
      ∃ r, s.after = w ++ r ∧ u = { s with before := w.reverse ++ s.before, after := r } := by
  induction w generalizing s with
  | nil => simp [text, ends]
  | cons c w ih =>
    rw [text, mem_ends_seq]
    simp only [mem_ends_chr, ih]
    constructor
    · rintro ⟨v, ⟨r, hafter, rfl⟩, r', hrest, rfl⟩
      dsimp only at hrest
      exact ⟨r', by rw [hafter, hrest, List.cons_append], by simp⟩
    · rintro ⟨r, hafter, rfl⟩
      exact ⟨_, ⟨w ++ r, hafter, rfl⟩, r, rfl, by simp⟩

/-- The last character that a match reads when a character ends the pattern. -/
theorem before_of_mem_ends_chr {c : Char} (h : u ∈ (a ++ chr c).ends s) :
    u.before.head? = some c := by
  obtain ⟨v, -, hu⟩ := mem_ends_seq.mp h
  obtain ⟨r, -, rfl⟩ := mem_ends_chr.mp hu
  rfl

/-! ## Preferred ends -/

theorem head?_ends_seq {v : Place} (ha : (a.ends s).head? = some u)
    (hb : (b.ends u).head? = some v) :
    ((a ++ b).ends s).head? = some v := by
  obtain ⟨rest, hrest⟩ := List.head?_eq_some_iff.mp ha
  rw [ends_seq, hrest, List.flatMap_cons, List.head?_append, hb, Option.some_or]

theorem head?_ends_group {n : Nat} (ha : (a.ends s).head? = some u) :
    ((group n a).ends s).head? = some { u with groups := (n, s.after, u.after) :: u.groups } := by
  rw [show (group n a).ends s = (a.ends s).map _ from rfl, List.head?_map, ha]
  rfl

/-- A whole run of one class is preferred to a part of it. -/
theorem head?_ends_many {q : Char → Bool} {r : List Char} (hr : ∀ c ∈ r, q c = true)
    (ht : ∀ c ∈ t.head?, q c = false) (b : List Char) (gs : List (Nat × List Char × List Char)) :
    ((many (one q)).ends ⟨b, r ++ t, gs⟩).head? = some ⟨r.reverse ++ b, t, gs⟩ := by
  suffices hrounds : ∀ d, (rounds (one q).ends (d :: (r ++ t)) ⟨b, r ++ t, gs⟩).head? =
      some ⟨r.reverse ++ b, t, gs⟩ from hrounds ' '
  induction r generalizing b with
  | nil =>
    intro d
    cases t with
    | nil => rfl
    | cons c t =>
      rw [List.nil_append, rounds_one_cons, ht c rfl]
      rfl
  | cons c r ih =>
    intro d
    obtain ⟨hc, hrest⟩ := List.forall_mem_cons.mp hr
    rw [List.cons_append, rounds_one_cons, if_pos hc, List.head?_append, ih hrest, Option.some_or,
      List.reverse_cons, List.append_assoc]
    rfl

theorem head?_ends_some1 {q : Char → Bool} {c : Char} {r : List Char} (hc : q c = true)
    (hr : ∀ c ∈ r, q c = true) (ht : ∀ c ∈ t.head?, q c = false) (b : List Char)
    (gs : List (Nat × List Char × List Char)) :
    ((some1 (one q)).ends ⟨b, c :: (r ++ t), gs⟩).head? = some ⟨(c :: r).reverse ++ b, t, gs⟩ := by
  have hfirst : ((one q).ends ⟨b, c :: (r ++ t), gs⟩).head? = some ⟨c :: b, r ++ t, gs⟩ := by
    rw [ends_one_cons, if_pos hc]
    rfl
  rw [List.reverse_cons, List.append_assoc]
  exact head?_ends_seq hfirst (head?_ends_many hr ht (c :: b) gs)

theorem matchStart?_of_head? (h : (a.ends (Place.start t)).head? = some u) :
    a.matchStart? t = some ⟨Place.start t, u⟩ := by
  rw [matchStart?, matchAt_eq, h]
  rfl

theorem find?_of_head? (h : (a.ends (Place.start t)).head? = some u) :
    a.find? t = some ⟨Place.start t, u⟩ := by
  have hmatch : a.matchAt ⟨[], t, []⟩ = some ⟨Place.start t, u⟩ := matchStart?_of_head? h
  cases t with
  | nil => rw [find?, findIn_nil, hmatch]
  | cons c r =>
    rw [find?, findIn_cons, hmatch]
    rfl

/-- A match of a pattern that ends in a run of one class goes to the end of a text of that class. -/
theorem after_of_some1 {q : Char → Bool} {n : Nat}
    (h : ((a ++ group n (some1 (one q))).ends s).head? = some u) (hs : ∀ c ∈ s.whole, q c = true) :
    u.after = [] := by
  rw [ends_seq, List.head?_flatMap] at h
  obtain ⟨before, v, after, hsplit, hu, -⟩ := List.findSome?_eq_some_iff.mp h
  have hv : v ∈ a.ends s := by
    rw [hsplit]
    exact List.mem_append_right _ List.mem_cons_self
  have hq : ∀ c ∈ v.after, q c = true := by
    intro c hc
    refine hs c ?_
    rw [← whole_of_mem_ends a s v hv, Place.whole]
    exact List.mem_append_right _ hc
  obtain ⟨b, r, gs⟩ := v
  cases r with
  | nil => cases hu
  | cons c r =>
    obtain ⟨hc, hr⟩ := List.forall_mem_cons.mp hq
    have hrun := head?_ends_some1 (t := []) hc hr nofun b gs
    rw [List.append_nil] at hrun
    rw [head?_ends_group hrun, Option.some_inj] at hu
    rw [← hu]

/-! ## Characters without which there is no match -/

/-- The pattern matches only in a text that holds the character. -/
def Needs (c : Char) (a : Pattern) : Prop := ∀ s, ∀ u ∈ a.ends s, c ∈ s.whole

theorem Needs.left {c : Char} (h : Needs c a) (b : Pattern) : Needs c (a ++ b) := by
  intro s u hu
  obtain ⟨v, hv, -⟩ := mem_ends_seq.mp hu
  exact h s v hv

theorem Needs.right {c : Char} (h : Needs c b) (a : Pattern) : Needs c (a ++ b) := by
  intro s u hu
  obtain ⟨v, hv, hu⟩ := mem_ends_seq.mp hu
  rw [← whole_of_mem_ends a s v hv]
  exact h v u hu

theorem needs_lit {c : Char} {w : String} (h : c ∈ w.toList) : Needs c (lit w) := by
  intro s u hu
  obtain ⟨r, hafter, -⟩ := mem_ends_text.mp hu
  rw [Place.whole, hafter]
  exact List.mem_append_right _ (List.mem_append_left _ h)

theorem Needs.find? {c : Char} (h : Needs c a) (ht : c ∉ t) : a.find? t = none := by
  cases hm : a.find? t with
  | none => rfl
  | some m =>
    have hmatch := isMatch_of_find? hm
    refine absurd ?_ ht
    rw [← hmatch.whole]
    exact h m.first m.last hmatch.mem

theorem Needs.findAll {c : Char} (h : Needs c a) (ht : c ∉ t) : a.findAll t = [] := by
  rw [List.eq_nil_iff_forall_not_mem]
  intro m hm
  have hmatch := isMatch_of_mem_findAll hm
  refine ht ?_
  rw [← hmatch.whole]
  exact h m.first m.last hmatch.mem

end Pattern

end NullAccess
