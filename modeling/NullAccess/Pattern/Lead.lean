import NullAccess.Pattern.Machine

/-!
# Patterns that begin with a run

Many patterns begin with a run of characters of a class.  When such a pattern does not match at some
place, it does not match anywhere else in that run either, because the run from the earlier place
takes in all that a later one does.  A search may therefore pass over the rest of the run.
-/

namespace NullAccess

namespace Place

def bare (s : Place) : Place := { s with groups := [] }

@[simp] theorem bare_before (s : Place) : s.bare.before = s.before := rfl

@[simp] theorem bare_after (s : Place) : s.bare.after = s.after := rfl

@[simp] theorem bare_bare (s : Place) : s.bare.bare = s.bare := rfl

@[simp] theorem atBorder_bare (s : Place) : s.bare.atBorder = s.atBorder := rfl

@[simp] theorem atStop_bare (s : Place) : s.bare.atStop = s.atStop := rfl

@[simp] theorem isAlone_bare (s : Place) : s.bare.isAlone = s.isAlone := rfl

theorem back?_bare (n : Nat) (s : Place) : s.bare.back? n = (s.back? n).map bare := by
  induction n generalizing s with
  | zero => rfl
  | succ n ih =>
    unfold back?
    rw [bare_before]
    split
    · rfl
    · exact ih { s with before := _, after := _ }

end Place

namespace Pattern

/-- Whether the pattern never asks for the groups that were matched before. -/
def isForgetful : Pattern → Bool
  | nothing => true
  | one _ => true
  | seq a b => a.isForgetful && b.isForgetful
  | alt a b => a.isForgetful && b.isForgetful
  | many a => a.isForgetful
  | few a => a.isForgetful
  | times _ a => a.isForgetful
  | upTo _ a => a.isForgetful
  | upToFew _ a => a.isForgetful
  | atomic a => a.isForgetful
  | group _ a => a.isForgetful
  | start => true
  | stop => true
  | border _ => true
  | ahead _ a => a.isForgetful
  | behind _ _ => true
  | back _ _ a => a.isForgetful
  | again _ _ => false
  | given _ _ _ => false

/-- The class that the first character of a match is in, and a class of which any number of
characters may stand behind it, if the pattern begins with such a run. -/
def lead? : Pattern → Option ((Char → Bool) × (Char → Bool))
  | seq (one p) (many (one q)) => some (p, q)
  | seq (seq (one p) nothing) (many (one q)) => some (p, q)
  | seq a _ => a.lead?
  | group _ a => a.lead?
  | _ => none

theorem flatMap_bare {f : Place → List Place}
    (h : ∀ s, (f s).map Place.bare = (f s.bare).map Place.bare) {l m : List Place}
    (hl : l.map Place.bare = m.map Place.bare) :
    (l.flatMap f).map Place.bare = (m.flatMap f).map Place.bare := by
  have key : ∀ l : List Place, (l.flatMap f).map Place.bare =
      (l.map Place.bare).flatMap fun s => (f s).map Place.bare := by
    intro l
    induction l with
    | nil => rfl
    | cons s l ih => simp only [List.flatMap_cons, List.map_append, List.map_cons, ih, ← h s]
  rw [key, key, hl]

theorem further_bare (s t : Place) : further s.bare t.bare = further s t := rfl

/-- What goes on from a round does not depend on the groups matched before it. -/
theorem round_bare {f : Place → List Place}
    (h : ∀ s, (f s).map Place.bare = (f s.bare).map Place.bare) (s t : Place) :
    (if further s t then f t else [t]).map Place.bare =
      (if further s.bare t.bare then f t.bare else [t.bare]).map Place.bare := by
  rw [further_bare]
  split
  · exact h t
  · simp

theorem rounds_bare {f : Place → List Place}
    (h : ∀ s, (f s).map Place.bare = (f s.bare).map Place.bare) (left : List Char) (s : Place) :
    (rounds f left s).map Place.bare = (rounds f left s.bare).map Place.bare := by
  induction left generalizing s with
  | nil => simp [rounds]
  | cons c left ih =>
    simp only [rounds, List.map_append, List.map_cons, List.map_nil, Place.bare_bare]
    rw [flatMap_bare (round_bare ih s) (h s)]
    rfl

theorem roundsFew_bare {f : Place → List Place}
    (h : ∀ s, (f s).map Place.bare = (f s.bare).map Place.bare) (left : List Char) (s : Place) :
    (roundsFew f left s).map Place.bare = (roundsFew f left s.bare).map Place.bare := by
  induction left generalizing s with
  | nil => simp [roundsFew]
  | cons c left ih =>
    simp only [roundsFew, List.map_cons, Place.bare_bare]
    rw [flatMap_bare (round_bare ih s) (h s)]
    rfl

theorem roundsOf_bare {f : Place → List Place}
    (h : ∀ s, (f s).map Place.bare = (f s.bare).map Place.bare) (n : Nat) (s : Place) :
    (roundsOf f n s).map Place.bare = (roundsOf f n s.bare).map Place.bare := by
  induction n generalizing s with
  | zero => simp [roundsOf]
  | succ n ih => exact flatMap_bare ih (h s)

/-- Without their groups, places that agree lead to one and the same place. -/
theorem regroup_bare (s : Place) {l m : List Place} (h : l.map Place.bare = m.map Place.bare) :
    (l.head?.toList.map fun t => ({ s with groups := t.groups } : Place)).map Place.bare =
      (m.head?.toList.map fun t => ({ s.bare with groups := t.groups } : Place)).map
        Place.bare := by
  cases l <;> cases m <;> simp_all [Place.bare]

theorem isEmpty_bare {l m : List Place} (h : l.map Place.bare = m.map Place.bare) :
    l.isEmpty = m.isEmpty := by
  rw [← List.isEmpty_map (f := Place.bare), h, List.isEmpty_map]

/-- Where a match may end does not depend on the groups matched before it, if the pattern does not
ask for them. -/
theorem ends_bare (a : Pattern) (h : a.isForgetful = true) : ∀ s : Place,
    (a.ends s).map Place.bare = (a.ends s.bare).map Place.bare := by
  induction a with
  | one p =>
    intro s
    cases h : s.after with
    | nil => simp [ends, h]
    | cons c r => by_cases hp : p c <;> simp [ends, h, hp, Place.bare]
  | seq a b iha ihb =>
    obtain ⟨ha, hb⟩ := Bool.and_eq_true_iff.1 h
    exact fun s => flatMap_bare (ihb hb) (iha ha s)
  | alt a b iha ihb =>
    obtain ⟨ha, hb⟩ := Bool.and_eq_true_iff.1 h
    intro s
    simp only [ends, List.map_append, iha ha s, ihb hb s]
  | many a ih => exact fun s => rounds_bare (ih h) _ s
  | few a ih => exact fun s => roundsFew_bare (ih h) _ s
  | times n a ih => exact fun s => roundsOf_bare (ih h) n s
  | upTo n a ih => exact fun s => rounds_bare (ih h) _ s
  | upToFew n a ih => exact fun s => roundsFew_bare (ih h) _ s
  | atomic a ih =>
    intro s
    have := ih h s
    cases h : a.ends s <;> cases h' : a.ends s.bare <;> simp_all [ends]
  | group n a ih =>
    intro s
    have key : ∀ (f : Place → List (Nat × List Char × List Char)) (l : List Place),
        (l.map fun t => { t with groups := f t }).map Place.bare = l.map Place.bare := by
      intro f l
      simp [Function.comp_def, Place.bare]
    simp only [ends, key, ih h s]
  | ahead w a ih =>
    intro s
    cases w
    · simp only [ends, isEmpty_bare (ih h s)]
      split <;> simp
    · exact regroup_bare s (ih h s)
  | back w n a ih =>
    intro s
    simp only [ends, Place.back?_bare]
    cases hb : s.back? n with
    | none => cases w <;> simp
    | some u =>
      cases w
      · simp only [Option.map_some, isEmpty_bare (ih h u)]
        split <;> simp
      · exact regroup_bare s (ih h u)
  | again | given => simp [isForgetful] at h
  | nothing | start | stop | border | behind =>
    intro s
    simp only [ends, Place.bare_before, Place.atBorder_bare, Place.atStop_bare, Place.isAlone_bare]
    grind [Place.bare_bare]

/-- The ends of a run of characters of a class. -/
theorem mem_rounds_one {q : Char → Bool} {u : Place} (r b : List Char) (d : Char) (gs) :
    u ∈ rounds (one q).ends (d :: r) ⟨b, r, gs⟩ ↔
      ∃ w t, r = w ++ t ∧ (∀ x ∈ w, q x = true) ∧ u = ⟨w.reverse ++ b, t, gs⟩ := by
  induction r generalizing b d with
  | nil =>
    simp only [rounds_one_nil, List.mem_singleton, List.nil_eq, List.append_eq_nil_iff]
    constructor
    · rintro rfl
      exact ⟨[], [], by simp⟩
    · rintro ⟨w, t, ⟨rfl, rfl⟩, _, rfl⟩
      rfl
  | cons c r ih =>
    rw [rounds_one_cons]
    by_cases hq : q c
    · simp only [hq, if_true, List.mem_append, List.mem_singleton, ih]
      constructor
      · rintro (⟨w, t, rfl, hw, rfl⟩ | rfl)
        · exact ⟨c :: w, t, rfl, by simpa [hq] using hw, by simp⟩
        · exact ⟨[], c :: r, rfl, by simp, rfl⟩
      · rintro ⟨w, t, hr, hw, rfl⟩
        cases w with
        | nil => right; simp_all
        | cons d w =>
          obtain ⟨rfl, rfl⟩ := List.cons.inj hr
          exact .inl ⟨w, t, rfl, fun x hx => hw x (by simp [hx]), by simp⟩
    · simp only [hq, Bool.false_eq_true, if_false, List.nil_append, List.mem_singleton]
      constructor
      · rintro rfl
        exact ⟨[], c :: r, rfl, by simp, rfl⟩
      · rintro ⟨w, t, hr, hw, rfl⟩
        cases w with
        | nil => simp_all
        | cons d w =>
          obtain ⟨rfl, rfl⟩ := List.cons.inj hr
          exact absurd (hw c (by simp)) hq

/-- A run that begins later reaches no further. -/
theorem mem_run {p q : Char → Bool} {b mid r : List Char} {c d : Char} {g k} {u : Place}
    (hc : p c = true) (hm : ∀ x ∈ mid, q x = true) (hd : q d = true)
    (hu : u ∈ (seq (one p) (many (one q))).ends ⟨mid.reverse ++ c :: b, d :: r, g⟩) :
    ∃ v ∈ (seq (one p) (many (one q))).ends ⟨b, c :: (mid ++ d :: r), k⟩, v.bare = u.bare := by
  simp only [ends] at hu ⊢
  by_cases hp : p d
  · simp only [hp, if_true, List.flatMap_cons, List.flatMap_nil, List.append_nil, hc] at hu ⊢
    obtain ⟨w, t, rfl, hw, rfl⟩ := (mem_rounds_one _ _ _ _).1 hu
    -- The earlier run reads `mid`, and then what the later one reads.
    refine ⟨_, (mem_rounds_one _ _ _ _).2 ⟨mid ++ d :: w, t, by simp, ?_, rfl⟩, ?_⟩
    · intro x hx
      rcases List.mem_append.1 hx with hx | hx
      · exact hm x hx
      · rcases List.mem_cons.1 hx with rfl | hx
        · exact hd
        · exact hw x hx
    · simp [Place.bare]
  · simp [hp] at hu

/-- A match that begins inside the run of an earlier start ends where one from that start may
end. -/
theorem mem_lead {a : Pattern} {p q : Char → Bool} (ha : a.lead? = some (p, q))
    (hf : a.isForgetful = true)
    {b mid r : List Char} {c d : Char} {g k} {u : Place} (hc : p c = true)
    (hm : ∀ x ∈ mid, q x = true) (hd : q d = true)
    (hu : u ∈ a.ends ⟨mid.reverse ++ c :: b, d :: r, g⟩) :
    ∃ v ∈ a.ends ⟨b, c :: (mid ++ d :: r), k⟩, v.bare = u.bare := by
  induction a generalizing u g k with
  | seq a y iha _ =>
    -- Behind the run `y` goes on alike from both places, because it asks for no groups.
    have step : a.lead? = some (p, q) →
        ∃ v ∈ (seq a y).ends ⟨b, c :: (mid ++ d :: r), k⟩, v.bare = u.bare := by
      intro hl
      obtain ⟨t, ht, hu⟩ := List.mem_flatMap.1 hu
      obtain ⟨hfa, hfy⟩ := Bool.and_eq_true_iff.1 hf
      obtain ⟨t', ht', e⟩ := iha hl hfa (k := k) ht
      have : u.bare ∈ (y.ends t').map Place.bare := by
        rw [ends_bare y hfy, e, ← ends_bare y hfy]
        exact List.mem_map_of_mem hu
      obtain ⟨v, hv, hvu⟩ := List.mem_map.1 this
      exact ⟨v, List.mem_flatMap.2 ⟨t', ht', hv⟩, hvu⟩
    unfold lead? at ha
    split at ha
    · next p' q' he =>
      obtain ⟨rfl, rfl⟩ := Pattern.seq.inj he
      obtain ⟨rfl, rfl⟩ := Prod.mk.inj (Option.some.inj ha)
      exact mem_run hc hm hd hu
    · next p' q' he =>
      obtain ⟨rfl, rfl⟩ := Pattern.seq.inj he
      obtain ⟨rfl, rfl⟩ := Prod.mk.inj (Option.some.inj ha)
      have e : ∀ s, (seq (seq (one p') nothing) (many (one q'))).ends s =
          (seq (one p') (many (one q'))).ends s := by
        intro s
        simp [ends]
      rw [e] at hu ⊢
      exact mem_run hc hm hd hu
    · next a' b' _ _ he =>
      obtain ⟨rfl, rfl⟩ := Pattern.seq.inj he
      exact step ha
    · simp_all
    · simp at ha
  | group n a iha =>
    obtain ⟨t, ht, rfl⟩ := List.mem_map.1 hu
    obtain ⟨v, hv, e⟩ := iha ha hf (k := k) ht
    exact ⟨_, List.mem_map_of_mem hv, by simpa [Place.bare] using e⟩
  | _ => simp [lead?] at ha

/-- The run that the pattern begins with and that a search may pass over. -/
def firstRun? (a : Pattern) : Option ((Char → Bool) × (Char → Bool)) :=
  if a.isForgetful then a.lead? else none

/-- Inside such a run there is no match that the beginning of the run has not. -/
theorem mem_firstRun {a : Pattern} {p q : Char → Bool} (ha : a.firstRun? = some (p, q))
    {b mid r : List Char} {c d : Char} {g k} {u : Place} (hc : p c = true)
    (hm : ∀ x ∈ mid, q x = true) (hd : q d = true)
    (hu : u ∈ a.ends ⟨mid.reverse ++ c :: b, d :: r, g⟩) :
    ∃ v ∈ a.ends ⟨b, c :: (mid ++ d :: r), k⟩, v.bare = u.bare := by
  unfold firstRun? at ha
  split at ha
  · next hf => exact mem_lead ha hf hc hm hd hu
  · simp at ha

end Pattern

end NullAccess
