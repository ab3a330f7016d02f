import NullAccess.Proofs.Pattern.Searched

/-!
# The end that a search comes to

A text of fixed parts and runs is matched from its first character on, each run as far as it goes.
The lemmas follow the preferred end of a pattern part by part, up to a tag that stands before a run
(`exists_find?_tag`).  A pattern that begins with a text matches nowhere if the text does not occur
(`Opens.find?`).
-/

namespace NullAccess.Pattern

open Text

variable {a b : Pattern} {s u : Place} {t w r : List Char} {c : Char} {q : Char → Bool} {n : Nat}

/-! ## Preferred ends -/

theorem ends_text (w b r : List Char) (gs : List (Nat × List Char × List Char)) :
    (text w).ends ⟨b, w ++ r, gs⟩ = [⟨w.reverse ++ b, r, gs⟩] := by
  induction w generalizing b with
  | nil => rfl
  | cons c w ih =>
    rw [text, ends_seq, chr, List.cons_append, ends_one_cons, if_pos (beq_self_eq_true c),
      List.flatMap_singleton, ih, List.reverse_cons, List.append_assoc]
    rfl

theorem head?_ends_lit (w : String) (b r : List Char) (gs : List (Nat × List Char × List Char)) :
    ((lit w).ends ⟨b, w.toList ++ r, gs⟩).head? = some ⟨w.toList.reverse ++ b, r, gs⟩ := by
  rw [lit, ends_text]
  rfl

theorem head?_ends_blanks (hu : IsPad t) (hr : ∀ c ∈ r.head?, isBlank c = false) (b : List Char)
    (gs : List (Nat × List Char × List Char)) :
    (blanks.ends ⟨b, t ++ r, gs⟩).head? = some ⟨t.reverse ++ b, r, gs⟩ := head?_ends_many hu hr b gs

theorem head?_ends_gap (hu : IsPad t) (hne : t ≠ []) (hr : ∀ c ∈ r.head?, isBlank c = false)
    (b : List Char) (gs : List (Nat × List Char × List Char)) :
    (gap.ends ⟨b, t ++ r, gs⟩).head? = some ⟨t.reverse ++ b, r, gs⟩ := by
  obtain ⟨c, t, rfl⟩ := List.exists_cons_of_ne_nil hne
  obtain ⟨hc, ht⟩ := List.forall_mem_cons.mp hu
  exact head?_ends_some1 hc ht hr b gs

theorem head?_ends_run (hne : t ≠ []) (ht : ∀ c ∈ t, q c = true) (hr : ∀ c ∈ r.head?, q c = false)
    (b : List Char) (gs : List (Nat × List Char × List Char)) :
    ((group n (some1 (one q))).ends ⟨b, t ++ r, gs⟩).head? =
      some ⟨t.reverse ++ b, r, (n, t ++ r, r) :: gs⟩ := by
  obtain ⟨c, t, rfl⟩ := List.exists_cons_of_ne_nil hne
  obtain ⟨hc, ht⟩ := List.forall_mem_cons.mp ht
  exact head?_ends_group (head?_ends_some1 hc ht hr b gs)

/-- A tag with blanks behind it: the group keeps what comes then. -/
theorem exists_find?_tag {v : String} {a : Pattern} {u x : List Char}
    (hsep : ∀ b, (a.ends ⟨b, u ++ x, []⟩).head? = some ⟨u.reverse ++ b, x, []⟩)
    (hne : x ≠ []) (hx : ∀ c ∈ x, q c = true) :
    ∃ m, (lit v ++ a ++ group n (some1 (one q))).find? (v.toList ++ (u ++ x)) = some m ∧
      m.group n = x := by
  have hrun : ∀ b, ((group n (some1 (one q))).ends ⟨b, x, []⟩).head? =
      some ⟨x.reverse ++ b, [], [(n, x, [])]⟩ := by
    intro b
    have h := head?_ends_run (n := n) (r := []) hne hx nofun b []
    rwa [List.append_nil] at h
  have htag := head?_ends_seq (head?_ends_seq (head?_ends_lit v [] (u ++ x) []) (hsep _)) (hrun _)
  exact ⟨_, find?_of_head? htag, by simp [Match.group, Match.group?, Place.group?]⟩

theorem head?_ends_opt_of_head? (h : (a.ends s).head? = some u) :
    ((opt a).ends s).head? = some u := by
  rw [opt, ends, List.head?_append, h]
  rfl

theorem head?_ends_opt_of_nil (h : a.ends s = []) : ((opt a).ends s).head? = some s := by
  rw [opt, ends, h]
  rfl

theorem ends_many_cons (b r : List Char) (c : Char) (gs : List (Nat × List Char × List Char)) :
    (many (one q)).ends ⟨b, c :: r, gs⟩ =
      (if q c then (many (one q)).ends ⟨c :: b, r, gs⟩ else []) ++ [⟨b, c :: r, gs⟩] := by
  show rounds _ (_ :: c :: r) _ = (if q c then rounds _ (_ :: r) _ else _) ++ _
  rw [rounds_one_cons]
  cases r <;> split <;> rfl

/-! ## Patterns that begin with a text -/

/-- Every match begins with the text. -/
def Opens (w : List Char) (a : Pattern) : Prop := ∀ s, ∀ u ∈ a.ends s, w <+: s.after

theorem Opens.left (h : Opens w a) (b : Pattern) : Opens w (a ++ b) := by
  intro s u hu
  obtain ⟨v, hv, -⟩ := mem_ends_seq.mp hu
  exact h s v hv

theorem opens_lit (w : String) : Opens w.toList (lit w) := by
  intro s u hu
  obtain ⟨r, hafter, -⟩ := mem_ends_text.mp hu
  exact ⟨r, hafter.symm⟩

theorem Opens.find? (h : Opens w a) (ht : ¬ w <:+: t) : a.find? t = none := by
  rw [find?_eq_none_iff]
  rintro c ⟨-, hends⟩
  obtain ⟨u, hu⟩ := List.exists_mem_of_ne_nil _ hends
  exact ht ((h _ u hu).isInfix.trans (List.drop_suffix c t).isInfix)

/-- If the text's first character does not come again, the pattern can begin only with it. -/
theorem Opens.find?_of_ends (h : Opens (c :: w) a) (hr : c ∉ r)
    (hends : a.ends (.start (c :: r)) = []) : a.find? (c :: r) = none := by
  rw [find?_eq_none_iff]
  rintro k ⟨-, hbegins⟩
  cases k with
  | zero => exact hbegins hends
  | succ k =>
    obtain ⟨u, hu⟩ := List.exists_mem_of_ne_nil _ hbegins
    have hlater : c :: w <+: r.drop k := h _ u hu
    exact hr (List.mem_of_mem_drop (hlater.subset List.mem_cons_self))

theorem Opens.find?_cons (h : Opens (c :: w) a) (hr : c ∉ r) (hw : ¬ w <+: r) :
    a.find? (c :: r) = none := by
  refine h.find?_of_ends hr (List.eq_nil_iff_forall_not_mem.mpr fun u hu => ?_)
  exact hw (List.cons_prefix_cons.mp (h _ u hu)).2

/-- A text is not begun by characters that do not begin it. -/
theorem isInfix_of_not_mem (hr : c ∉ r) (h : c :: w <:+: r ++ t) : c :: w <:+: t := by
  induction r with
  | nil => exact h
  | cons d r ih =>
    rcases List.infix_cons_iff.mp h with hhere | hlater
    · obtain rfl := (List.cons_prefix_cons.mp hhere).1
      exact absurd List.mem_cons_self hr
    · exact ih (fun hmem => hr (List.mem_cons_of_mem d hmem)) hlater

end NullAccess.Pattern
