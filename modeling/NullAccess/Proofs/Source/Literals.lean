import Mathlib.Order.Nat
import NullAccess.Proofs.Rule.Masking
import NullAccess.Source.Comment

/-!
# Comments and literals

The comment of a line begins at its first `//` that no literal holds.  Which characters stand in a
literal is told by a scan, and there are two of them: the one that masks call arguments passes over
what a backslash escapes, the one that strips comments knows no escapes.  So a line is cut where its
comment would begin if its backslashes were letters (`code_cutBefore_plain`).

That is the right place iff both scans agree about every `//` up to the comment.  They agree at
least up to the first mark that is escaped in a literal of its own kind (`agree_take`), and behind
such a mark a comment may be kept or code be lost (`comment_behind_escaped_mark_kept`).
-/

namespace NullAccess

namespace Mask

/-- The mark of the literal that goes on at column `i` of a text, if one does. -/
def literalAt (t : List Char) (i : Nat) : Option Char := (State.after {} (t.take i)).quote

/-- At column `i` stands an escaped mark of the kind that its own literal is quoted with. -/
def EscapedMarkAt (t : List Char) (i : Nat) : Prop :=
  (State.after {} (t.take i)).escaped = true ∧ (literalAt t i).isSome = true ∧ t[i]? = literalAt t i

instance (t : List Char) (i : Nat) : Decidable (EscapedMarkAt t i) :=
  inferInstanceAs (Decidable (_ ∧ _ ∧ _))

end Mask

namespace Source

open Mask

variable {l r r' : Line} {c : Char} {i : Nat} {s p : State} {P Q : Nat → Prop}

/-- At column `i` the comment of a line may begin: two slashes stand there, and no literal goes
on. -/
def CommentAt (l : Line) (i : Nat) : Prop :=
  l[i]? = some '/' ∧ l[i + 1]? = some '/' ∧ literalAt l i = none

instance (l : Line) (i : Nat) : Decidable (CommentAt l i) :=
  inferInstanceAs (Decidable (_ ∧ _ ∧ _))

/-- A character that escapes nothing. -/
def plainChar (c : Char) : Char := if c = '\\' then '_' else c

/-- The line with a letter in place of each backslash. -/
def plain (l : Line) : Line := l.map plainChar

/-- `r` is the line cut just before the first column of a kind, and the whole line if it has
none. -/
def CutBefore (P : Nat → Prop) (l r : Line) : Prop :=
  (∃ i, IsLeast {i | P i} i ∧ r = l.take i) ∨ (∀ i, ¬ P i) ∧ r = l

/-! ## Cuts -/

theorem cutBefore_of_zero (h : P 0) : CutBefore P l [] :=
  .inl ⟨0, ⟨h, fun _ _ => Nat.zero_le _⟩, rfl⟩

theorem CutBefore.cons (h : CutBefore Q r r') (hzero : ¬ P 0) (hsucc : ∀ i, P (i + 1) ↔ Q i) :
    CutBefore P (c :: r) (c :: r') := by
  rcases h with ⟨i, ⟨hi, hleast⟩, rfl⟩ | ⟨hnone, rfl⟩
  · refine .inl ⟨i + 1, ⟨(hsucc i).mpr hi, fun j hj => ?_⟩, rfl⟩
    cases j with
    | zero => exact absurd hj hzero
    | succ j => exact Nat.succ_le_succ (hleast ((hsucc j).mp hj))
  · refine .inr ⟨fun i hi => ?_, rfl⟩
    cases i with
    | zero => exact hzero hi
    | succ i => exact hnone i ((hsucc i).mp hi)

/-- A cut before columns of one kind is one before columns of another kind iff the two kinds agree
up to the first column of the other kind. -/
theorem CutBefore.iff_agree (h : CutBefore P l r) (hP : ∀ i, P i → i < l.length)
    (hQ : ∀ i, Q i → i < l.length) :
    CutBefore Q l r ↔ ∀ i, (∀ j < i, ¬ Q j) → (P i ↔ Q i) := by
  have hlength : ∀ {k}, k < l.length → (l.take k).length = k := fun hk =>
    List.length_take_of_le (Nat.le_of_lt hk)
  constructor
  · intro hother i hbefore
    rcases h with ⟨a, ⟨ha, hleast⟩, rfl⟩ | ⟨hnone, rfl⟩
    · have hcut := hlength (hP a ha)
      rcases hother with ⟨b, ⟨hb, hfirst⟩, heq⟩ | ⟨-, heq⟩
      -- The cuts are of one length, so the first columns of the two kinds are the same.
      · obtain rfl : a = b := by rw [← hcut, heq, hlength (hQ b hb)]
        constructor
        · intro hi
          obtain rfl : a = i := by
            by_contra hne
            exact hbefore a (Nat.lt_of_le_of_ne (hleast hi) hne) hb
          exact hb
        · intro hi
          obtain rfl : a = i := by
            by_contra hne
            exact hbefore a (Nat.lt_of_le_of_ne (hfirst hi) hne) hb
          exact ha
      · rw [heq] at hcut
        exact absurd (hP a ha) (Nat.not_lt_of_le (Nat.le_of_eq hcut))
    · rcases hother with ⟨b, ⟨hb, -⟩, heq⟩ | ⟨hother, -⟩
      · have hcut := hlength (hQ b hb)
        rw [← heq] at hcut
        exact absurd (hQ b hb) (Nat.not_lt_of_le (Nat.le_of_eq hcut))
      · exact iff_of_false (hnone i) (hother i)
  · intro hagree
    -- The first column of the other kind is of both, and none of the first kind lies before it.
    by_cases hexists : ∃ b, Q b
    · classical
      obtain ⟨b, hb, hfirst⟩ : ∃ b, IsLeast {i | Q i} b := ⟨_, Nat.isLeast_find hexists⟩
      have hbefore : ∀ j < b, ¬ Q j := fun j hj hQj => absurd (hfirst hQj) (Nat.not_le_of_lt hj)
      have hPb : P b := (hagree b hbefore).mpr hb
      have hPfirst : ∀ i, P i → b ≤ i := by
        intro i hi
        by_contra hlt
        have hi' := (hagree i fun j hj => hbefore j (by omega)).mp hi
        exact hlt (hfirst hi')
      rcases h with ⟨a, ⟨ha, hleast⟩, rfl⟩ | ⟨hnone, -⟩
      · obtain rfl : a = b := Nat.le_antisymm (hleast hPb) (hPfirst a ha)
        exact .inl ⟨a, ⟨hb, hfirst⟩, rfl⟩
      · exact absurd hPb (hnone b)
    · have hnone : ∀ i, ¬ Q i := fun i hi => hexists ⟨i, hi⟩
      have hnoneP : ∀ i, ¬ P i := fun i hi => hnone i ((hagree i fun j _ => hnone j).mp hi)
      rcases h with ⟨a, ⟨ha, -⟩, -⟩ | ⟨-, rfl⟩
      · exact absurd ha (hnoneP a)
      · exact .inr ⟨hnone, rfl⟩

/-! ## The scan that knows no escapes -/

theorem isQuote_iff : isQuote c = true ↔ c = '\'' ∨ c = '"' ∨ c = '`' := by
  simp [isQuote, or_assoc]

theorem plainChar_of_ne (h : c ≠ '\\') : plainChar c = c := if_neg h

theorem isQuote_plainChar (c : Char) : isQuote (plainChar c) = isQuote c := by
  by_cases hc : c = '\\'
  · rw [hc]
    rfl
  · rw [plainChar_of_ne hc]

/-- A mark is no backslash, so it is where it was in the plain line. -/
theorem plainChar_eq_iff {q : Char} (hq : isQuote q = true) : plainChar c = q ↔ c = q := by
  by_cases hc : c = '\\'
  · subst hc
    constructor <;> rintro rfl <;> cases hq
  · rw [plainChar_of_ne hc]

/-- A scan in which nothing is escaped, and only marks open literals. -/
structure Unescaped (s : State) : Prop where
  escaped : s.escaped = false
  isQuote : ∀ q, s.quote = some q → isQuote q = true

theorem unescaped_start : Unescaped {} := ⟨rfl, nofun⟩

theorem plainChar_ne_backslash (c : Char) : plainChar c ≠ '\\' := by
  unfold plainChar
  split
  · decide
  · assumption

theorem quote_next_of_open {q : Char} (hs : Unescaped s) (hq : s.quote = some q) (c : Char) :
    (s.next (plainChar c)).quote = if c = q then none else some q := by
  simp only [State.next, hq, hs.escaped, Bool.false_eq_true, if_false,
    if_neg (plainChar_ne_backslash c), plainChar_eq_iff (hs.isQuote q hq)]
  split
  · rfl
  · exact hq

theorem quote_next_of_closed (hq : s.quote = none) (c : Char) :
    (s.next (plainChar c)).quote = if isQuote c then some c else none := by
  by_cases hc : isQuote c = true
  · have hplain : plainChar c = c := (plainChar_eq_iff hc).mpr rfl
    simp only [State.next, hq, hplain, if_pos (isQuote_iff.mp hc), if_pos hc]
  · have hmark := mt isQuote_iff.mpr ((isQuote_plainChar c).symm ▸ hc)
    simp only [State.next, hq, if_neg hmark, if_neg hc]
    split
    · rfl
    · split
      · rfl
      · exact hq

theorem Unescaped.next (hs : Unescaped s) (c : Char) : Unescaped (s.next (plainChar c)) := by
  cases hq : s.quote with
  | some q =>
    refine ⟨?_, fun d hd => ?_⟩
    · simp only [State.next, hq, hs.escaped, Bool.false_eq_true, if_false,
        if_neg (plainChar_ne_backslash c)]
      split
      · rfl
      · exact hs.escaped
    · rw [quote_next_of_open hs hq] at hd
      split at hd
      · cases hd
      · exact hs.isQuote d (hq.trans hd)
  | none =>
    refine ⟨?_, fun d hd => ?_⟩
    · simp only [State.next, hq]
      split
      · exact hs.escaped
      · split
        · exact hs.escaped
        · split <;> exact hs.escaped
    · rw [quote_next_of_closed hq] at hd
      split at hd
      · cases hd
        assumption
      · cases hd

/-- The scan for the comment is the scan for literals on the plain line. -/
theorem cutBefore_codeFrom (hs : Unescaped s) (l : Line) :
    CutBefore (fun i => l[i]? = some '/' ∧ l[i + 1]? = some '/' ∧
      (s.after ((plain l).take i)).quote = none) l (codeFrom s.quote l) := by
  induction l generalizing s with
  | nil => exact .inr ⟨fun i hi => Option.some_ne_none '/' hi.1.symm, rfl⟩
  | cons c r ih =>
    have hrest := ih (hs.next c)
    -- A column of the rest is one further on here, in the state behind the first character.
    have hsucc : ∀ i, ((c :: r)[i + 1]? = some '/' ∧ (c :: r)[i + 1 + 1]? = some '/' ∧
        (s.after ((plain (c :: r)).take (i + 1))).quote = none) ↔
        (r[i]? = some '/' ∧ r[i + 1]? = some '/' ∧
          ((s.next (plainChar c)).after ((plain r).take i)).quote = none) := fun _ => Iff.rfl
    cases hq : s.quote with
    | some q =>
      rw [quote_next_of_open hs hq] at hrest
      refine hrest.cons (fun hzero => ?_) hsucc
      cases hq.symm.trans hzero.2.2
    | none =>
      rw [quote_next_of_closed hq] at hrest
      unfold codeFrom
      by_cases hc : isQuote c = true
      · simp only [if_pos hc] at hrest ⊢
        refine hrest.cons (fun hzero => ?_) hsucc
        cases Option.some_inj.mp hzero.1
        cases hc
      · simp only [if_neg hc] at hrest ⊢
        by_cases hslashes : c = '/' ∧ r.head? = some '/'
        · rw [if_pos hslashes]
          refine cutBefore_of_zero ⟨congrArg some hslashes.1, ?_, hq⟩
          rw [List.getElem?_cons_succ, ← List.head?_eq_getElem?]
          exact hslashes.2
        · rw [if_neg hslashes]
          refine hrest.cons (fun hzero => hslashes ⟨Option.some_inj.mp hzero.1, ?_⟩) hsucc
          rw [List.head?_eq_getElem?]
          exact hzero.2.1

theorem plainChar_eq_slash : plainChar c = '/' ↔ c = '/' := by
  unfold plainChar
  split
  · next h =>
    subst h
    decide
  · rfl

theorem getElem?_plain_eq_slash : (plain l)[i]? = some '/' ↔ l[i]? = some '/' := by
  rw [plain, List.getElem?_map, Option.map_eq_some_iff]
  simp [plainChar_eq_slash]

/-- A line is cut where its comment would begin if its backslashes were letters. -/
theorem code_cutBefore_plain (l : Line) : CutBefore (CommentAt (plain l)) l (code l) := by
  have hcut := cutBefore_codeFrom unescaped_start l
  unfold CommentAt
  simp only [getElem?_plain_eq_slash]
  exact hcut

/-! ## Where the two scans agree -/

/-- Two scans that see the same literal, where the second knows no escapes. -/
structure Agree (s p : State) : Prop where
  escapes : s.EscapesInQuotes
  unescaped : Unescaped p
  quote : s.quote = p.quote

/-- The scans part only at an escaped mark of the kind that the literal is quoted with. -/
theorem Agree.next (h : Agree s p) (hc : ¬ (s.escaped = true ∧ s.quote = some c)) :
    Agree (s.next c) (p.next (plainChar c)) := by
  refine ⟨h.escapes.next c, h.unescaped.next c, ?_⟩
  cases hq : p.quote with
  | none =>
    rw [quote_next_of_closed hq]
    have hs := h.quote.trans hq
    by_cases hmark : isQuote c = true
    · simp only [State.next, hs, if_pos (isQuote_iff.mp hmark), if_pos hmark]
    · simp only [State.next, hs, if_neg (mt isQuote_iff.mpr hmark), if_neg hmark]
      split
      · rfl
      · split
        · rfl
        · exact hs
  | some q =>
    rw [quote_next_of_open h.unescaped hq]
    have hs := h.quote.trans hq
    have hmark := h.unescaped.isQuote q hq
    rw [hs, Option.some_inj] at hc
    simp only [State.next, hs]
    by_cases hescaped : s.escaped = true
    · rw [if_pos hescaped, if_neg fun heq => hc ⟨hescaped, heq.symm⟩]
    · rw [if_neg hescaped]
      by_cases hbackslash : c = '\\'
      · have hne : c ≠ q := by
          rintro rfl
          rw [hbackslash] at hmark
          cases hmark
        rw [if_pos hbackslash, if_neg hne]
      · rw [if_neg hbackslash]
        split
        · rfl
        · exact hs

theorem agree_take (h : ∀ j < i, ¬ EscapedMarkAt l j) :
    Agree (State.after {} (l.take i)) (State.after {} ((plain l).take i)) := by
  induction i with
  | zero => exact ⟨State.escapesInQuotes_of_depth 0, unescaped_start, rfl⟩
  | succ i ih =>
    have hbefore := ih fun j hj => h j (Nat.lt_succ_of_lt hj)
    cases hc : l[i]? with
    | none =>
      have hplain : (plain l)[i]? = none := by rw [plain, List.getElem?_map, hc]; rfl
      rw [List.take_add_one, List.take_add_one, hc, hplain]
      simpa using hbefore
    | some c =>
      have hplain : (plain l)[i]? = some (plainChar c) := by rw [plain, List.getElem?_map, hc]; rfl
      rw [List.take_add_one, List.take_add_one, hc, hplain, State.after_append, State.after_append]
      refine hbefore.next fun hescaped => h i (Nat.lt_succ_self i) ⟨hescaped.1, ?_, ?_⟩
      · rw [literalAt, hescaped.2]
        rfl
      · rw [literalAt, hescaped.2, hc]

theorem lt_length_of_commentAt (h : CommentAt l i) : i < l.length := by
  obtain ⟨hlt, -⟩ := List.getElem?_eq_some_iff.mp h.1
  exact hlt

/-- Stripping cuts a line before its comment iff, up to that comment, slashes begin a comment
exactly where they would if nothing were escaped; and so it is where no mark before the comment is
escaped in a literal of its own kind. -/
theorem code_cut_before_comment_iff (l : Line) :
    CutBefore (CommentAt (plain l)) l (code l) ∧
    (CutBefore (CommentAt l) l (code l) ↔
      ∀ i, (∀ j < i, ¬ CommentAt l j) → (CommentAt (plain l) i ↔ CommentAt l i)) ∧
    ((∀ i, (∀ j < i, ¬ CommentAt l j) → ¬ EscapedMarkAt l i) →
      CutBefore (CommentAt l) l (code l)) := by
  have hcut := code_cutBefore_plain l
  have hlength : ∀ i, CommentAt (plain l) i → i < l.length := by
    intro i hi
    have hlt := lt_length_of_commentAt hi
    rwa [plain, List.length_map] at hlt
  have hiff := hcut.iff_agree hlength fun i => lt_length_of_commentAt
  refine ⟨hcut, hiff, fun hmarks => hiff.mpr fun i hbefore => ?_⟩
  have hagree : Agree _ _ := agree_take (l := l) (i := i) fun j hj =>
    hmarks j fun k hk => hbefore k (Nat.lt_trans hk hj)
  simp only [CommentAt, getElem?_plain_eq_slash, literalAt, hagree.quote]

/-- The comment that follows a literal with an escaped mark in it is kept: the line
`a('\'') // b`. -/
theorem comment_behind_escaped_mark_kept : ¬ ∀ l, CutBefore (CommentAt l) l (code l) := by
  intro h
  have hcomment : CommentAt "a('\\'') // b".toList 8 := by decide
  rcases h "a('\\'') // b".toList with ⟨i, ⟨hi, -⟩, heq⟩ | ⟨hnone, -⟩
  · have hlength := congrArg List.length heq
    rw [show code "a('\\'') // b".toList = "a('\\'') // b".toList from by decide,
      List.length_take_of_le (Nat.le_of_lt (lt_length_of_commentAt hi))] at hlength
    exact absurd (lt_length_of_commentAt hi) (Nat.not_lt_of_le (Nat.le_of_eq hlength))
  · exact hnone 8 hcomment

end Source

end NullAccess
