import NullAccess.Proofs.Access.Conditions

/-!
# Which access is told

A line may dereference a name several times, and one access is told.  Where no method is called on
the name, that is the first member outside all conditions; if there is none, the first index; and if
there is none either, the first member, which then stands inside a condition
(`kinds_told_by_conditions`).

The forms of access are stated by what stands at a column (`MemberAt`, `IndexAt`, `CallAt`).  The
members that a search finds one behind the other are all there are: behind the beginning of one, up
to its end, each column follows a character of a path, where no name begins (`apart_member`).
-/

namespace NullAccess.Access

open Text Pattern

variable {name t r b : List Char} {c : Nat} {s u : Place} {m : Match} {a : Pattern}

/-! ## Forms of access -/

/-- At a column stands the name, no longer name or path ends in it, and `r` follows. -/
structure NameAt (name t : List Char) (c : Nat) (r : List Char) : Prop where
  here : t.drop c = name ++ r
  alone : ∀ d, (t.take c).getLast? = some d → Guard.isPathChar d = false

/-- Names, each behind a point. -/
inductive IsPath : List Char → Prop where
  | nil : IsPath []
  | cons {p q : List Char} (hne : p ≠ []) (hp : ∀ d ∈ p, isNameChar d = true) (hq : IsPath q) :
      IsPath ('.' :: (p ++ q))

/-- At a column a member of the name is accessed. -/
def MemberAt (name t : List Char) (c : Nat) : Prop :=
  ∃ d r, NameAt name t c ('.' :: d :: r) ∧ isNameChar d = true

/-- At a column the name is indexed. -/
def IndexAt (name t : List Char) (c : Nat) : Prop := ∃ r, NameAt name t c ('[' :: r)

/-- At a column a method is called, on the name or at the end of a path from it. -/
def CallAt (name t : List Char) (c : Nat) : Prop :=
  ∃ p v r, NameAt name t c (p ++ (v ++ '(' :: r)) ∧ IsPath p ∧ p ≠ [] ∧ IsPad v

/-- At a column a member of the name is accessed, outside all conditions. -/
def FreeMemberAt (name t : List Char) (c : Nat) : Prop :=
  MemberAt name t c ∧ ¬ ∃ a b, IsCondition t a b ∧ a ≤ c ∧ c < b

/-! ## Where the patterns begin -/

theorem mem_ends_reference :
    u ∈ (Guard.reference name).ends (.atColumn t c) ↔
      ∃ r, NameAt name t c r ∧ u = ⟨name.reverse ++ (t.take c).reverse, r, []⟩ := by
  have hbehind : ∀ y, y ∈ (behind false Guard.isPathChar).ends (.atColumn t c) ↔
      (∀ d, (t.take c).getLast? = some d → Guard.isPathChar d = false) ∧ y = .atColumn t c := by
    intro y
    simp only [ends, Place.atColumn, List.head?_reverse]
    cases (t.take c).getLast? with
    | none => simp
    | some d => cases hd : Guard.isPathChar d <;> simp [hd]
  simp only [Guard.reference, mem_ends_seq, hbehind, mem_ends_text]
  constructor
  · rintro ⟨_, ⟨halone, rfl⟩, r, hr, rfl⟩
    exact ⟨r, ⟨hr, halone⟩, rfl⟩
  · rintro ⟨r, ⟨hr, halone⟩, rfl⟩
    exact ⟨_, ⟨halone, rfl⟩, r, hr, rfl⟩

theorem mem_ends_dotName :
    u ∈ dotName.ends s ↔
      ∃ p r, p ≠ [] ∧ (∀ d ∈ p, isNameChar d = true) ∧ s.after = '.' :: (p ++ r) ∧
        u = { s with before := p.reverse ++ '.' :: s.before, after := r } := by
  simp only [dotName, nameChars, some1, mem_ends_seq, mem_ends_chr, mem_ends_one, mem_ends_run]
  constructor
  · rintro ⟨_, ⟨r₁, hafter, rfl⟩, _, ⟨d, r₂, hr₁, hd, rfl⟩, p, r, hr₂, hp, rfl⟩
    dsimp only at hr₁ hr₂
    refine ⟨d :: p, r, List.cons_ne_nil d p, List.forall_mem_cons.mpr ⟨hd, hp⟩, ?_, by simp⟩
    rw [hafter, hr₁, hr₂, List.cons_append]
  · rintro ⟨p, r, hne, hp, hafter, rfl⟩
    obtain ⟨d, p, rfl⟩ := List.exists_cons_of_ne_nil hne
    obtain ⟨hd, hp⟩ := List.forall_mem_cons.mp hp
    exact ⟨_, ⟨d :: (p ++ r), hafter, rfl⟩, _, ⟨d, p ++ r, rfl, hd, rfl⟩, p, r, rfl, hp, by simp⟩

/-- Points and names one behind the other are a path. -/
theorem mem_ends_dotNames :
    u ∈ (many dotName).ends s ↔ ∃ p r, IsPath p ∧ s.after = p ++ r ∧
      u = { s with before := p.reverse ++ s.before, after := r } := by
  rw [mem_ends_many rfl]
  constructor
  · intro hchain
    induction hchain using Relation.ReflTransGen.head_induction_on with
    | refl => exact ⟨[], u.after, .nil, rfl, rfl⟩
    | head hfirst _ ih =>
      obtain ⟨p, r₁, hne, hp, hafter, rfl⟩ := mem_ends_dotName.mp hfirst
      obtain ⟨q, r, hq, hr₁, rfl⟩ := ih
      dsimp only at hr₁
      refine ⟨'.' :: (p ++ q), r, .cons hne hp hq, ?_, by simp⟩
      rw [hafter, hr₁, List.cons_append, List.append_assoc]
  · rintro ⟨p, r, hpath, hafter, rfl⟩
    induction hpath generalizing s with
    | nil =>
      obtain ⟨before, after, groups⟩ := s
      obtain rfl : after = r := hafter
      exact .refl
    | @cons p q hne hp _ ih =>
      have hfirst := mem_ends_dotName.mpr ⟨p, q ++ r, hne, hp, by rw [hafter]; simp, rfl⟩
      refine .head hfirst ?_
      have hrest := ih (s := { s with before := p.reverse ++ '.' :: s.before, after := q ++ r }) rfl
      simpa using hrest

theorem NameAt.lt_length (h : NameAt name t c r) (hr : r ≠ []) : c < t.length := by
  have hlength := congrArg List.length h.here
  have hpos := List.length_pos_iff.mpr hr
  rw [List.length_drop, List.length_append] at hlength
  omega

/-- Where a pattern that begins with the name begins. -/
theorem beginsAt_reference_iff (hreads : a.reads = true) :
    (Guard.reference name ++ a).BeginsAt t c ↔
      ∃ r u, NameAt name t c r ∧ u ∈ a.ends ⟨name.reverse ++ (t.take c).reverse, r, []⟩ := by
  constructor
  · rintro ⟨-, hends⟩
    obtain ⟨u, hu⟩ := List.exists_mem_of_ne_nil _ hends
    obtain ⟨v, hv, hu⟩ := mem_ends_seq.mp hu
    obtain ⟨r, hr, rfl⟩ := mem_ends_reference.mp hv
    exact ⟨r, u, hr, hu⟩
  · rintro ⟨r, u, hr, hu⟩
    have hne : r ≠ [] := by
      rintro rfl
      exact absurd (ends_lt hreads hu) (Nat.not_lt_zero _)
    exact ⟨Nat.le_of_lt (hr.lt_length hne),
      List.ne_nil_of_mem (mem_ends_seq.mpr ⟨_, mem_ends_reference.mpr ⟨r, hr, rfl⟩, hu⟩)⟩

theorem beginsAt_member_iff : (member name).BeginsAt t c ↔ MemberAt name t c := by
  rw [member, beginsAt_reference_iff rfl]
  simp only [mem_ends_dotName]
  constructor
  · rintro ⟨_, _, hr, p, r, hne, hp, rfl, -⟩
    obtain ⟨d, p, rfl⟩ := List.exists_cons_of_ne_nil hne
    exact ⟨d, p ++ r, hr, hp d List.mem_cons_self⟩
  · rintro ⟨d, r, hr, hd⟩
    exact ⟨_, _, hr, [d], r, List.cons_ne_nil d [], by simpa using hd, rfl, rfl⟩

theorem beginsAt_index_iff : (index name).BeginsAt t c ↔ IndexAt name t c := by
  rw [index, beginsAt_reference_iff rfl]
  simp only [mem_ends_chr]
  constructor
  · rintro ⟨_, _, hr, r, rfl, -⟩
    exact ⟨r, hr⟩
  · rintro ⟨r, hr⟩
    exact ⟨_, _, hr, r, rfl, rfl⟩

theorem beginsAt_methodCall_iff : (methodCall name).BeginsAt t c ↔ CallAt name t c := by
  have hassoc : ∀ s, (methodCall name).ends s =
      (Guard.reference name ++ (some1 dotName ++ (blanks ++ chr '('))).ends s := by
    intro s
    rw [methodCall, ends_seq_assoc, ends_seq_assoc]
  rw [BeginsAt, hassoc, ← BeginsAt, beginsAt_reference_iff rfl]
  simp only [some1, blanks, mem_ends_seq, mem_ends_chr, mem_ends_run,
    mem_ends_dotName, mem_ends_dotNames]
  constructor
  · rintro ⟨_, _, hname, _, ⟨_, ⟨p, r₁, hne, hp, rfl, rfl⟩, q, r₂, hq, hr₁, rfl⟩, _,
      ⟨v, r₃, hr₂, hv, rfl⟩, r, hr₃, -⟩
    dsimp only at hr₁ hr₂ hr₃
    refine ⟨'.' :: (p ++ q), v, r, ?_, .cons hne hp hq, List.cons_ne_nil _ _, hv⟩
    rw [hr₁, hr₂, hr₃] at hname
    simpa using hname
  · rintro ⟨p, v, r, hname, hpath, hne, hv⟩
    cases hpath with
    | nil => exact absurd rfl hne
    | @cons p q hp hchars hq =>
      have hname' : NameAt name t c ('.' :: (p ++ (q ++ (v ++ '(' :: r)))) := by simpa using hname
      exact ⟨_, _, hname', _, ⟨_, ⟨p, _, hp, hchars, rfl, rfl⟩, q, _, hq, rfl, rfl⟩,
        _, ⟨v, _, rfl, hv, rfl⟩, r, rfl, rfl⟩

/-! ## The members one behind the other -/

theorem reads_member (name : List Char) : (member name).reads = true := Bool.or_true _

theorem isPathChar_of_isNameChar {d : Char} (h : isNameChar d = true) :
    Guard.isPathChar d = true := by
  rw [Guard.isPathChar, h]
  rfl

/-- What a search for members read: the name, a point and a name. -/
theorem read_of_member (h : m ∈ (member name).findAll t) :
    ∃ p r, t.drop m.startCol = (name ++ '.' :: p) ++ r ∧ (∀ d ∈ p, isNameChar d = true) ∧
      m.stopCol = m.startCol + (name ++ '.' :: p).length := by
  have hmatch := isMatch_of_mem_findAll h
  have hmem := hmatch.mem
  rw [first_of_mem_findAll (reads_member name) h] at hmem
  obtain ⟨v, hv, hlast⟩ := mem_ends_seq.mp hmem
  obtain ⟨r₁, hname, rfl⟩ := mem_ends_reference.mp hv
  obtain ⟨p, r, -, hp, rfl, hlast⟩ := mem_ends_dotName.mp hlast
  refine ⟨p, r, by rw [hname.here]; simp, hp, ?_⟩
  rw [Match.stopCol, hlast, Place.column]
  simp only [List.length_append, List.length_reverse, List.length_cons, List.length_take,
    Nat.min_eq_left hmatch.startCol_le]
  omega

/-- Inside a member begins no other one, for each column in it follows a character of a path. -/
theorem apart_member (hname : ∀ d ∈ name, isNameChar d = true) (t : List Char) :
    (member name).Apart t := by
  intro m hm c hlt hstop hbegins
  obtain ⟨d, r', hat, -⟩ := beginsAt_member_iff.mp hbegins
  obtain ⟨p, r, hdrop, hp, hcol⟩ := read_of_member hm
  have hpath : ∀ e ∈ name ++ '.' :: p, Guard.isPathChar e = true := by
    intro e he
    rcases List.mem_append.mp he with he | he
    · exact isPathChar_of_isNameChar (hname e he)
    · rcases List.mem_cons.mp he with rfl | he
      · rfl
      · exact isPathChar_of_isNameChar (hp e he)
  obtain ⟨j, rfl⟩ : ∃ j, c = m.startCol + j + 1 := ⟨c - m.startCol - 1, by omega⟩
  have hj : j < (name ++ '.' :: p).length := by omega
  have hread : t[m.startCol + j]? = some (name ++ '.' :: p)[j] := by
    rw [← List.getElem?_drop, hdrop, List.getElem?_append_left hj, List.getElem?_eq_getElem hj]
  have hlast : (t.take (m.startCol + j + 1)).getLast? = some (name ++ '.' :: p)[j] := by
    rw [List.take_add_one, hread]
    simp
  have halone := hat.alone _ hlast
  rw [hpath _ (List.getElem_mem hj)] at halone
  cases halone

theorem mem_members_iff (hname : ∀ d ∈ name, isNameChar d = true) :
    c ∈ ((member name).findAll t).map Match.startCol ↔ MemberAt name t c := by
  rw [mem_startCols_iff (reads_member name) (apart_member hname t), beginsAt_member_iff]

/-! ## The access that is told -/

/-- In an ascending list the first number of a kind is the least one. -/
theorem find?_ascending {cols : List Nat} (h : cols.Pairwise (· < ·)) {p : Nat → Bool} :
    cols.find? p = some c ↔ IsLeast {c | c ∈ cols ∧ p c = true} c := by
  have hleast : ∀ {c}, cols.find? p = some c → IsLeast {c | c ∈ cols ∧ p c = true} c := by
    intro c hc
    obtain ⟨hp, front, back, rfl, hfront⟩ := List.find?_eq_some_iff_append.mp hc
    refine ⟨⟨by simp, hp⟩, fun d ⟨hd, hpd⟩ => ?_⟩
    rcases List.mem_append.mp hd with hd | hd
    · have hnot := hfront d hd
      rw [hpd] at hnot
      cases hnot
    · rcases List.mem_cons.mp hd with rfl | hd
      · exact Nat.le_refl d
      · exact Nat.le_of_lt ((List.pairwise_cons.mp (List.pairwise_append.mp h).2.1).1 d hd)
  refine ⟨hleast, fun hc => ?_⟩
  cases hfound : cols.find? p with
  | none => exact absurd hc.1.2 (List.find?_eq_none.mp hfound c hc.1.1)
  | some d => rw [(hleast hfound).unique hc]

/-- A choice of the least number of a kind fails only where there is none. -/
theorem eq_none_iff_of_isLeast {o : Option Nat} {p : Nat → Prop}
    (h : ∀ c, o = some c ↔ IsLeast {c | p c} c) : o = none ↔ ∀ c, ¬ p c := by
  constructor
  · rintro rfl c hc
    classical
    cases (h _).mpr (Nat.isLeast_find ⟨c, hc⟩)
  · intro hnone
    cases o with
    | none => rfl
    | some c => exact absurd ((h c).mp rfl).1 (hnone c)

section Told

variable (hname : ∀ d ∈ name, isNameChar d = true)

include hname

theorem find?_free :
    (((member name).findAll t).map Match.startCol).find? (!within · (conditionSpans t)) = some c ↔
      IsLeast {c | FreeMemberAt name t c} c := by
  rw [find?_ascending (pairwise_startCols (reads_member name) t)]
  simp only [mem_members_iff hname, Bool.not_eq_true', ← Bool.not_eq_true, within_iff]
  exact Iff.rfl

theorem head?_members :
    (((member name).findAll t).map Match.startCol).head? = some c ↔
      IsLeast {c | MemberAt name t c} c := by
  have hall : (((member name).findAll t).map Match.startCol).head? =
      (((member name).findAll t).map Match.startCol).find? fun _ => true := by
    cases ((member name).findAll t).map Match.startCol <;> rfl
  rw [hall, find?_ascending (pairwise_startCols (reads_member name) t)]
  simp only [mem_members_iff hname, and_true]

/-- Where no method is called on a name, the access that is told is the first member outside all
conditions; if there is none, the first index; and if there is none either, the first member. -/
theorem kinds_told_by_conditions (hcall : ∀ c, ¬ CallAt name t c) :
    ((conditionSpans t).Pairwise (fun p q => p.1 < q.1) ∧
      ∀ a b, (a, b) ∈ conditionSpans t ↔ IsCondition t a b) ∧
    (∀ c, first? name t = some (.memberAccess, c) ↔ IsLeast {c | FreeMemberAt name t c} c) ∧
    (∀ c, first? name t = some (.indexAccess, c) ↔
      (∀ c, ¬ FreeMemberAt name t c) ∧ IsLeast {c | IndexAt name t c} c) ∧
    (∀ c, first? name t = some (.conditionalAccess, c) ↔
      (∀ c, ¬ FreeMemberAt name t c) ∧ (∀ c, ¬ IndexAt name t c) ∧
      IsLeast {c | MemberAt name t c} c) ∧
    (first? name t = none ↔ (∀ c, ¬ MemberAt name t c) ∧ ∀ c, ¬ IndexAt name t c) := by
  refine ⟨⟨pairwise_conditionSpans t, fun a b => mem_conditionSpans_iff⟩, ?_⟩
  have hnocall : (methodCall name).find? t = none :=
    find?_eq_none_iff.mpr fun c hc => hcall c (beginsAt_methodCall_iff.mp hc)
  have hfree : ∀ c, _ = some c ↔ IsLeast {c | FreeMemberAt name t c} c := fun c => find?_free hname
  have hmember : ∀ c, _ = some c ↔ IsLeast {c | MemberAt name t c} c := fun c => head?_members hname
  have hindex : ∀ c, ((index name).find? t).map Match.startCol = some c ↔
      IsLeast {c | IndexAt name t c} c := by
    intro c
    rw [find?_eq_some_iff_isLeast]
    simp only [beginsAt_index_iff]
  -- Each search becomes the least column it finds; what is left is the order of the searches.
  rw [first?, hnocall]
  dsimp only
  simp only [← hfree, ← hindex, ← hmember, ← eq_none_iff_of_isLeast hfree,
    ← eq_none_iff_of_isLeast hindex, ← eq_none_iff_of_isLeast hmember]
  generalize ((member name).findAll t).map Match.startCol = members
  cases hfound : members.find? fun c => !within c (conditionSpans t) with
  | some c =>
    have hne : members ≠ [] := List.ne_nil_of_mem (List.mem_of_find?_eq_some hfound)
    simp [hne]
  | none => cases (index name).find? t <;> simp

end Told

/-- A member in a condition that a call closes, one outside, and one in a condition that nothing
closes. -/
def mixedLine : List Char := "if (g(u.a)) x = u.c; while (u.b || y".toList

/-- The member outside is told, at column 16. -/
theorem kinds_told_by_conditions_sample :
    (∀ d ∈ ['u'], isNameChar d = true) ∧ (∀ c, ¬ CallAt ['u'] mixedLine c) ∧
      IsLeast {c | FreeMemberAt ['u'] mixedLine c} 16 ∧
      IsCondition mixedLine 4 11 ∧ IsCondition mixedLine 28 36 := by
  have hname : ∀ d ∈ ['u'], isNameChar d = true := List.all_eq_true.mp (by decide)
  have hcall : ∀ c, ¬ CallAt ['u'] mixedLine c := by
    have hnone : (methodCall ['u']).find? mixedLine = none := by decide +kernel
    exact fun c hc => find?_eq_none_iff.mp hnone c (beginsAt_methodCall_iff.mpr hc)
  obtain ⟨⟨-, hspans⟩, hfree, -⟩ := kinds_told_by_conditions hname hcall
  exact ⟨hname, hcall, (hfree 16).mp (by decide +kernel), (hspans 4 11).mp (by decide +kernel),
    (hspans 28 36).mp (by decide +kernel)⟩

end NullAccess.Access
