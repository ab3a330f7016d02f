import NullAccess.Pattern.Basic

/-!
# Running a pattern

Listing all ends of a long repetition costs far more than finding the preferred one.  A machine is
built from a pattern once; it tries the ends in order and stops at the first from which what goes on
succeeds, and it passes over places where the next character rules success out.  Main statement: the
machine finds what looking through the list of ends would find.
-/

namespace NullAccess.Pattern

/-! ## What may stand next -/

/-- What has to stand next for a match to go on: a character of a class, or anything at all. -/
abbrev Expected := Option (Char → Bool)

namespace Expected

def allows (e : Expected) (t : List Char) : Bool :=
  match e with
  | none => true
  | some p =>
    match t with
    | [] => false
    | c :: _ => p c

def or (e f : Expected) : Expected :=
  match e, f with
  | some p, some q => some fun c => p c || q c
  | _, _ => none

@[simp] theorem allows_none (t : List Char) : allows none t = true := rfl

theorem allows_or_left {e : Expected} (f : Expected) {t : List Char} (h : e.allows t = true) :
    (e.or f).allows t = true := by
  cases e <;> cases f <;> cases t <;> simp_all [or, allows]

theorem allows_or_right (e : Expected) {f : Expected} {t : List Char} (h : f.allows t = true) :
    (e.or f).allows t = true := by
  cases e <;> cases f <;> cases t <;> simp_all [or, allows]

end Expected

/-- What has to stand next for the pattern to match, if `e` has to stand behind it. -/
def heads : Pattern → Expected → Expected
  | nothing, e => e
  | one p, _ => some p
  | seq a b, e => a.heads (b.heads e)
  | alt a b, e => (a.heads e).or (b.heads e)
  | many a, e => (a.heads none).or e
  | few a, e => (a.heads none).or e
  | times n a, e => if n = 0 then e else a.heads none
  | upTo _ a, e => (a.heads none).or e
  | upToFew _ a, e => (a.heads none).or e
  | atomic a, e => a.heads e
  | group _ a, e => a.heads e
  | start, e => e
  | stop, e => e
  | border _, e => e
  | ahead _ _, e => e
  | behind _ _, e => e
  | back _ _ _, e => e
  | again _ _, _ => none
  | given _ a b, e => (a.heads e).or (b.heads e)

/-! ## Machines -/

/-- What goes on behind a match. -/
abbrev Next := Place → Option Place

/-- A way to run a pattern: from a place it finds the first end from which what goes on succeeds, as
that gives it. -/
structure Machine where
  run : Place → Next → Option Place

/-- Whether every match of the pattern reads at least one character, as far as its shape shows. -/
def reads : Pattern → Bool
  | one _ => true
  | seq a b => a.reads || b.reads
  | alt a b => a.reads && b.reads
  | times n a => n != 0 && a.reads
  | atomic a => a.reads
  | group _ a => a.reads
  | given _ a b => a.reads && b.reads
  | _ => false

/-- How a repetition tells that a round of `a` has read something: a pattern that always reads needs
no test. -/
def progress (a : Pattern) : Place → Place → Bool := if a.reads then fun _ _ => true else further

/-- Whether what is expected stands somewhere behind characters of a class. -/
def expectedBehind (p : Char → Bool) (e : Expected) : List Char → Bool
  | [] => e.allows []
  | c :: r => e.allows (c :: r) || (p c && expectedBehind p e r)

/-- The places after any number of characters of a class where the text goes on as expected, from
the one with most characters on, followed by `held`. -/
def stretch (p : Char → Bool) (e : Expected) (groups : List (Nat × List Char × List Char)) :
    (before after : List Char) → (held : List Place) → List Place
  | before, [], held =>
    if e.allows [] then { before := before, after := [], groups := groups } :: held else held
  | before, c :: r, held =>
    let here :=
      if e.allows (c :: r) then { before := before, after := c :: r, groups := groups } :: held
      else held
    if p c then stretch p e groups (c :: before) r here else here

/-- The first place after any number of characters of a class, fewer first, from which `next`
succeeds. -/
def stretchFew (p : Char → Bool) (e : Expected) (groups : List (Nat × List Char × List Char))
    (next : Next) : (before after : List Char) → Option Place
  | before, [] =>
    if e.allows [] then next { before := before, after := [], groups := groups } else none
  | before, c :: r =>
    let here :=
      if e.allows (c :: r) then next { before := before, after := c :: r, groups := groups }
      else none
    match here with
    | some t => some t
    | none => if p c then stretchFew p e groups next (c :: before) r else none

/-- Rounds of a machine, more rounds first, up to the first place from which `next` succeeds. -/
def Machine.rounds (m : Machine) (goes : Place → Place → Bool) (next : Next) :
    (left : List Char) → Place → Option Place
  | [], s => next s
  | _ :: left, s =>
    (m.run s fun t => if goes s t then m.rounds goes next left t else next t) <|> next s

/-- Rounds of a machine, fewer rounds first, up to the first place from which `next` succeeds. -/
def Machine.roundsFew (m : Machine) (goes : Place → Place → Bool) (next : Next) :
    (left : List Char) → Place → Option Place
  | [], s => next s
  | _ :: left, s =>
    next s <|> m.run s fun t => if goes s t then m.roundsFew goes next left t else next t

def Machine.times (m : Machine) (next : Next) : Nat → Place → Option Place
  | 0, s => next s
  | n + 1, s => m.run s (m.times next n)

/-- A machine for the pattern, if `e` has to stand behind it. -/
def machine : Pattern → Expected → Machine
  | nothing, _ => ⟨fun s next => next s⟩
  | one p, _ =>
    ⟨fun s next =>
      match s.after with
      | [] => none
      | c :: r => if p c then next { s with before := c :: s.before, after := r } else none⟩
  | seq a b, e =>
    let second := b.machine e
    let first := a.machine (b.heads e)
    ⟨fun s next => first.run s fun t => second.run t next⟩
  | alt a b, e =>
    let first := a.machine e
    let second := b.machine e
    ⟨fun s next => first.run s next <|> second.run s next⟩
  -- Runs of single characters are by far the most common, and need no rounds.
  | many (one p), e =>
    ⟨fun s next =>
      if expectedBehind p e s.after then
        (stretch p e s.groups s.before s.after []).findSome? next
      else none⟩
  | few (one p), e => ⟨fun s next => stretchFew p e s.groups next s.before s.after⟩
  | many a, _ =>
    let round := a.machine none
    let goes := a.progress
    ⟨fun s next => round.rounds goes next (allRounds s) s⟩
  | few a, _ =>
    let round := a.machine none
    let goes := a.progress
    ⟨fun s next => round.roundsFew goes next (allRounds s) s⟩
  | times n a, _ =>
    let round := a.machine none
    ⟨fun s next => round.times next n s⟩
  | upTo n a, _ =>
    let round := a.machine none
    let goes := a.progress
    ⟨fun s next => round.rounds goes next ((allRounds s).take n) s⟩
  | upToFew n a, _ =>
    let round := a.machine none
    let goes := a.progress
    ⟨fun s next => round.roundsFew goes next ((allRounds s).take n) s⟩
  | atomic a, _ =>
    let inner := a.machine none
    -- The first end is final: when what goes on fails there, no other is tried.
    ⟨fun s next => (inner.run s some).bind next⟩
  | group n a, e =>
    let inner := a.machine e
    ⟨fun s next =>
      inner.run s fun t => next { t with groups := (n, s.after, t.after) :: t.groups }⟩
  | start, _ => ⟨fun s next => if s.before.isEmpty then next s else none⟩
  | stop, _ => ⟨fun s next => if s.atStop then next s else none⟩
  | border wanted, _ => ⟨fun s next => if s.atBorder == wanted && !s.isAlone then next s else none⟩
  | ahead true a, _ =>
    let inner := a.machine none
    ⟨fun s next => (inner.run s some).bind fun t => next { s with groups := t.groups }⟩
  | ahead false a, _ =>
    let inner := a.machine none
    ⟨fun s next => if (inner.run s some).isNone then next s else none⟩
  | behind wanted p, _ =>
    ⟨fun s next => if s.before.head?.any p == wanted then next s else none⟩
  | back wanted n a, _ =>
    let inner := a.machine none
    ⟨fun s next =>
      match s.back? n, wanted with
      | none, true => none
      | none, false => next s
      | some u, true => (inner.run u some).bind fun t => next { s with groups := t.groups }
      | some u, false => if (inner.run u some).isNone then next s else none⟩
  | again same n, _ => ⟨fun s next => ((s.group? n).bind fun w => s.past? same w).bind next⟩
  | given n a b, e =>
    let first := a.machine e
    let second := b.machine e
    ⟨fun s next => if (s.group? n).isSome then first.run s next else second.run s next⟩

/-! ## The machine agrees with the list of ends -/

/-- What holds along every round holds along any number of them, more rounds first. -/
theorem rounds_le {step : Place → List Place}
    (h : ∀ s t, t ∈ step s → t.after.length ≤ s.after.length) (left : List Char) (s t : Place)
    (ht : t ∈ rounds step left s) : t.after.length ≤ s.after.length := by
  induction left generalizing s with
  | nil => simp_all [rounds]
  | cons c left ih =>
    simp only [rounds, List.mem_append, List.mem_flatMap, List.mem_singleton] at ht
    rcases ht with ⟨u, hu, ht⟩ | rfl
    · split at ht
      · exact Nat.le_trans (ih _ ht) (h _ _ hu)
      · rw [List.mem_singleton] at ht
        exact ht ▸ h _ _ hu
    · exact Nat.le_refl _

theorem roundsFew_le {step : Place → List Place}
    (h : ∀ s t, t ∈ step s → t.after.length ≤ s.after.length) (left : List Char) (s t : Place)
    (ht : t ∈ roundsFew step left s) : t.after.length ≤ s.after.length := by
  induction left generalizing s with
  | nil => simp_all [roundsFew]
  | cons c left ih =>
    simp only [roundsFew, List.mem_cons, List.mem_flatMap] at ht
    rcases ht with rfl | ⟨u, hu, ht⟩
    · exact Nat.le_refl _
    · split at ht
      · exact Nat.le_trans (ih _ ht) (h _ _ hu)
      · rw [List.mem_singleton] at ht
        exact ht ▸ h _ _ hu

theorem roundsOf_le {step : Place → List Place}
    (h : ∀ s t, t ∈ step s → t.after.length ≤ s.after.length) (n : Nat) (s t : Place)
    (ht : t ∈ roundsOf step n s) : t.after.length ≤ s.after.length := by
  induction n generalizing s with
  | zero => simp_all [roundsOf]
  | succ n ih =>
    obtain ⟨u, hu, ht⟩ := List.mem_flatMap.1 ht
    exact Nat.le_trans (ih _ ht) (h _ _ hu)

theorem past?_le {same : Char → Char → Bool} (w : List Char) (s t : Place)
    (h : s.past? same w = some t) : t.after.length ≤ s.after.length := by
  induction w generalizing s with
  | nil => simp_all [Place.past?]
  | cons c w ih =>
    unfold Place.past? at h
    split at h
    · simp at h
    · next d r hs =>
      split at h
      · have := ih _ h
        simp_all
        omega
      · simp at h

/-- Matching never gives text back. -/
theorem ends_le (a : Pattern) :
    ∀ (s t : Place), t ∈ a.ends s → t.after.length ≤ s.after.length := by
  induction a with
  | one p =>
    intro s t h
    unfold ends at h
    split at h
    · simp at h
    · split at h <;> simp_all
  | seq a b iha ihb =>
    intro s t h
    obtain ⟨u, hu, ht⟩ := List.mem_flatMap.1 h
    exact Nat.le_trans (ihb _ _ ht) (iha _ _ hu)
  | alt a b iha ihb =>
    intro s t h
    exact (List.mem_append.1 h).elim (iha s t) (ihb s t)
  | many a iha => exact fun s t h => rounds_le iha _ s t h
  | few a iha => exact fun s t h => roundsFew_le iha _ s t h
  | times n a iha => exact fun s t h => roundsOf_le iha n s t h
  | upTo n a iha => exact fun s t h => rounds_le iha _ s t h
  | upToFew n a iha => exact fun s t h => roundsFew_le iha _ s t h
  | atomic a iha =>
    intro s t h
    simp only [ends, Option.mem_toList] at h
    exact iha s t (List.mem_of_head? h)
  | group n a iha =>
    intro s t h
    obtain ⟨u, hu, rfl⟩ := List.mem_map.1 h
    exact iha s u hu
  | again same n =>
    intro s t h
    obtain ⟨w, _, hw⟩ := Option.bind_eq_some_iff.1 (Option.mem_toList.1 h)
    exact past?_le w s t hw
  | given n a b iha ihb =>
    intro s t h
    unfold ends at h
    split at h
    · exact iha s t h
    · exact ihb s t h
  | ahead w a _ =>
    intro s t h
    cases w <;> simp only [ends] at h <;> grind
  | back w n a _ =>
    intro s t h
    simp only [ends] at h
    grind
  | nothing | start | stop | border | behind =>
    intro s t h
    simp only [ends] at h
    grind

/-- A pattern whose shape shows that it reads does so at every end. -/
theorem ends_lt {a : Pattern} : a.reads = true → ∀ {s t : Place}, t ∈ a.ends s →
    t.after.length < s.after.length := by
  induction a with
  | one p =>
    intro _ s t h
    unfold ends at h
    split at h
    · simp at h
    · split at h <;> simp_all
  | seq a b iha ihb =>
    intro hr s t h
    obtain ⟨u, hu, ht⟩ := List.mem_flatMap.1 h
    rcases Bool.or_eq_true_iff.1 hr with hr | hr
    · exact Nat.lt_of_le_of_lt (ends_le b _ _ ht) (iha hr hu)
    · exact Nat.lt_of_lt_of_le (ihb hr ht) (ends_le a _ _ hu)
  | alt a b iha ihb =>
    intro hr s t h
    obtain ⟨ha, hb⟩ := Bool.and_eq_true_iff.1 hr
    exact (List.mem_append.1 h).elim (iha ha) (ihb hb)
  | times n a iha =>
    intro hr s t h
    obtain ⟨hn, ha⟩ := Bool.and_eq_true_iff.1 hr
    cases n with
    | zero => simp at hn
    | succ n =>
      obtain ⟨u, hu, ht⟩ := List.mem_flatMap.1 h
      exact Nat.lt_of_le_of_lt (roundsOf_le (ends_le a) n _ _ ht) (iha ha hu)
  | atomic a iha =>
    intro hr s t h
    simp only [ends, Option.mem_toList] at h
    exact iha hr (List.mem_of_head? h)
  | group n a iha =>
    intro hr s t h
    obtain ⟨u, hu, rfl⟩ := List.mem_map.1 h
    exact iha hr (t := u) hu
  | given n a b iha ihb =>
    intro hr s t h
    obtain ⟨ha, hb⟩ := Bool.and_eq_true_iff.1 hr
    unfold ends at h
    split at h
    · exact iha ha h
    · exact ihb hb h
  | nothing | start | stop | border | ahead | behind | many | few | upTo | upToFew | back | again =>
    intro hr
    simp [reads] at hr

theorem findSome?_flatMap {α β γ : Type} (g : α → List β) (f : β → Option γ) (l : List α) :
    (l.flatMap g).findSome? f = l.findSome? fun x => (g x).findSome? f := by
  induction l with
  | nil => rfl
  | cons x l ih =>
    rw [List.flatMap_cons, List.findSome?_append, ih, List.findSome?_cons]
    cases (g x).findSome? f <;> rfl

theorem progress_eq {a : Pattern} {s t : Place} (h : t ∈ a.ends s) :
    a.progress s t = further s t := by
  unfold progress
  split
  · next hr => simpa [further] using ends_lt hr h
  · rfl

theorem findSome?_congr {α β : Type} {f g : α → Option β} {l : List α}
    (h : ∀ x ∈ l, f x = g x) : l.findSome? f = l.findSome? g := by
  induction l with
  | nil => rfl
  | cons x l ih =>
    rw [List.findSome?_cons, List.findSome?_cons, h x (by simp),
      ih fun y hy => h y (by simp [hy])]

/-- A round begins where its pattern expects, or there is none. -/
theorem rounds_allows {a : Pattern}
    (h : ∀ {s t : Place}, t ∈ a.ends s → (a.heads none).allows s.after = true) {e : Expected}
    {left : List Char} {s t : Place} (ht : t ∈ rounds a.ends left s)
    (he : e.allows t.after = true) : ((a.heads none).or e).allows s.after = true := by
  cases left with
  | nil =>
    rw [rounds, List.mem_singleton] at ht
    exact Expected.allows_or_right _ (ht ▸ he)
  | cons c left =>
    simp only [rounds, List.mem_append, List.mem_flatMap, List.mem_singleton] at ht
    rcases ht with ⟨u, hu, _⟩ | rfl
    · exact Expected.allows_or_left _ (h hu)
    · exact Expected.allows_or_right _ he

theorem roundsFew_allows {a : Pattern}
    (h : ∀ {s t : Place}, t ∈ a.ends s → (a.heads none).allows s.after = true) {e : Expected}
    {left : List Char} {s t : Place} (ht : t ∈ roundsFew a.ends left s)
    (he : e.allows t.after = true) : ((a.heads none).or e).allows s.after = true := by
  cases left with
  | nil =>
    rw [roundsFew, List.mem_singleton] at ht
    exact Expected.allows_or_right _ (ht ▸ he)
  | cons c left =>
    simp only [roundsFew, List.mem_cons, List.mem_flatMap] at ht
    rcases ht with rfl | ⟨u, hu, _⟩
    · exact Expected.allows_or_right _ he
    · exact Expected.allows_or_left _ (h hu)

/-- What stands where a match begins is what the pattern expects there. -/
theorem heads_allows (a : Pattern) : ∀ {e : Expected} {s t : Place}, t ∈ a.ends s →
    e.allows t.after = true → (a.heads e).allows s.after = true := by
  induction a with
  | one p =>
    intro e s t h _
    unfold ends at h
    split at h
    · simp at h
    · next c r hs =>
      split at h
      · simp_all [heads, Expected.allows]
      · simp at h
  | seq a b iha ihb =>
    intro e s t h he
    obtain ⟨u, hu, ht⟩ := List.mem_flatMap.1 h
    exact iha hu (ihb ht he)
  | alt a b iha ihb =>
    intro e s t h he
    rcases List.mem_append.1 h with h | h
    · exact Expected.allows_or_left _ (iha h he)
    · exact Expected.allows_or_right _ (ihb h he)
  | many a iha => exact fun h he => rounds_allows (fun hu => iha hu (Expected.allows_none _)) h he
  | few a iha => exact fun h he => roundsFew_allows (fun hu => iha hu (Expected.allows_none _)) h he
  | upTo n a iha => exact fun h he => rounds_allows (fun hu => iha hu (Expected.allows_none _)) h he
  | upToFew n a iha =>
    exact fun h he => roundsFew_allows (fun hu => iha hu (Expected.allows_none _)) h he
  | times n a iha =>
    intro e s t h he
    cases n with
    | zero => simp_all [ends, roundsOf, heads]
    | succ n =>
      obtain ⟨u, hu, _⟩ := List.mem_flatMap.1 h
      exact iha hu (Expected.allows_none _)
  | atomic a iha =>
    intro e s t h he
    simp only [ends, Option.mem_toList] at h
    exact iha (List.mem_of_head? h) he
  | group n a iha =>
    intro e s t h he
    obtain ⟨u, hu, rfl⟩ := List.mem_map.1 h
    exact iha hu (by exact he)
  | again same n => exact fun _ _ => Expected.allows_none _
  | given n a b iha ihb =>
    intro e s t h he
    unfold ends at h
    split at h
    · exact Expected.allows_or_left _ (iha h he)
    · exact Expected.allows_or_right _ (ihb h he)
  | ahead w a _ =>
    intro e s t h he
    cases w <;> simp only [ends] at h <;> simp only [heads] <;> grind
  | back w n a _ =>
    intro e s t h he
    simp only [ends] at h
    simp only [heads]
    grind
  | nothing | start | stop | border | behind =>
    intro e s t h he
    simp only [ends] at h
    simp only [heads]
    grind

/-- Going on succeeds only where what is expected stands. -/
def Respects (e : Expected) (next : Next) : Prop :=
  ∀ t : Place, e.allows t.after = false → next t = none

theorem respects_none (next : Next) : Respects none next := fun _ h => by simp at h

theorem Respects.before {e : Expected} {next : Next} (h : Respects e next) (b : Pattern) :
    Respects (b.heads e) fun t => (b.ends t).findSome? next := by
  intro t ht
  refine List.findSome?_eq_none_iff.2 fun u hu => h u ?_
  cases he : e.allows u.after with
  | false => rfl
  | true => simp [heads_allows b hu he] at ht

theorem ends_one_cons (p : Char → Bool) (before : List Char) (c : Char) (r : List Char) (gs) :
    (one p).ends ⟨before, c :: r, gs⟩ = if p c then [⟨c :: before, r, gs⟩] else [] := rfl

/-- Rounds of single characters, more first: a round on, and the place itself. -/
theorem rounds_one_cons (p : Char → Bool) (before : List Char) (c d : Char) (r : List Char) (gs) :
    rounds (one p).ends (d :: c :: r) ⟨before, c :: r, gs⟩ =
      (if p c then rounds (one p).ends (c :: r) ⟨c :: before, r, gs⟩ else []) ++
        [⟨before, c :: r, gs⟩] := by
  rw [rounds, ends_one_cons]
  split <;> simp [further]

theorem rounds_one_nil (p : Char → Bool) (before : List Char) (d : Char) (gs) :
    rounds (one p).ends [d] ⟨before, [], gs⟩ = [⟨before, [], gs⟩] := rfl

theorem roundsFew_one_cons (p : Char → Bool) (before : List Char) (c d : Char) (r : List Char)
    (gs) :
    roundsFew (one p).ends (d :: c :: r) ⟨before, c :: r, gs⟩ =
      ⟨before, c :: r, gs⟩ ::
        if p c then roundsFew (one p).ends (c :: r) ⟨c :: before, r, gs⟩ else [] := by
  rw [roundsFew, ends_one_cons]
  split <;> simp [further]

theorem roundsFew_one_nil (p : Char → Bool) (before : List Char) (d : Char) (gs) :
    roundsFew (one p).ends [d] ⟨before, [], gs⟩ = [⟨before, [], gs⟩] := rfl

theorem findSome?_stretch (p : Char → Bool) {e : Expected} (gs) {next : Next}
    (h : Respects e next) (after before : List Char) (d : Char) (held : List Place) :
    (stretch p e gs before after held).findSome? next =
      ((rounds (one p).ends (d :: after) ⟨before, after, gs⟩).findSome? next).or
        (held.findSome? next) := by
  -- The places passed on the way are put on `held`, which therefore varies.
  induction after generalizing before d held with
  | nil =>
    rw [rounds_one_nil]
    cases he : e.allows [] with
    | false => simp [stretch, he, h ⟨before, [], gs⟩ he]
    | true => cases hn : next ⟨before, [], gs⟩ <;> simp [stretch, he, hn]
  | cons c r ih =>
    have skip : ∀ held : List Place,
        (if e.allows (c :: r) = true then (⟨before, c :: r, gs⟩ : Place) :: held
          else held).findSome? next =
          (next ⟨before, c :: r, gs⟩).or (held.findSome? next) := by
      intro held
      cases he : e.allows (c :: r) with
      | false => simp [h ⟨before, c :: r, gs⟩ he]
      | true => cases hn : next ⟨before, c :: r, gs⟩ <;> simp [hn]
    rw [rounds_one_cons]
    by_cases hp : p c
    · simp only [stretch, hp, if_true, ih _ c, skip, List.findSome?_append]
      cases hn : next ⟨before, c :: r, gs⟩ <;> simp [hn]
    · simp only [stretch, hp, Bool.false_eq_true, if_false, skip]
      cases hn : next ⟨before, c :: r, gs⟩ <;> simp [hn]

theorem rounds_eq_none_of_expectedBehind (p : Char → Bool) {e : Expected} (gs) {next : Next}
    (h : Respects e next) (after before : List Char) (d : Char)
    (hb : expectedBehind p e after = false) :
    (rounds (one p).ends (d :: after) ⟨before, after, gs⟩).findSome? next = none := by
  induction after generalizing before d with
  | nil => simp [rounds_one_nil, h ⟨before, [], gs⟩ hb]
  | cons c r ih =>
    simp only [expectedBehind, Bool.or_eq_false_iff, Bool.and_eq_false_imp] at hb
    have hn := h ⟨before, c :: r, gs⟩ hb.1
    rw [rounds_one_cons]
    by_cases hp : p c
    · simp [hp, hn, ih (c :: before) c (hb.2 hp)]
    · simp [hp, hn]

theorem stretchFew_eq (p : Char → Bool) {e : Expected} (gs) {next : Next} (h : Respects e next)
    (after before : List Char) (d : Char) :
    stretchFew p e gs next before after =
      (roundsFew (one p).ends (d :: after) ⟨before, after, gs⟩).findSome? next := by
  induction after generalizing before d with
  | nil =>
    rw [roundsFew_one_nil]
    cases he : e.allows [] with
    | false => simp [stretchFew, he, h ⟨before, [], gs⟩ he]
    | true => cases hn : next ⟨before, [], gs⟩ <;> simp [stretchFew, he, hn]
  | cons c r ih =>
    have here : (if e.allows (c :: r) = true then next ⟨before, c :: r, gs⟩ else none) =
        next ⟨before, c :: r, gs⟩ := by
      cases he : e.allows (c :: r) with
      | false => simp [h ⟨before, c :: r, gs⟩ he]
      | true => simp
    rw [roundsFew_one_cons]
    simp only [stretchFew, here]
    by_cases hp : p c <;> cases hn : next ⟨before, c :: r, gs⟩ <;> simp [hp, hn, ih _ c]

theorem Machine.rounds_eq {a : Pattern} {m : Machine}
    (h : ∀ s next, m.run s next = (a.ends s).findSome? next) (next : Next)
    (left : List Char) (s : Place) :
    m.rounds a.progress next left s = (Pattern.rounds a.ends left s).findSome? next := by
  induction left generalizing s with
  | nil => simp only [Machine.rounds, Pattern.rounds, List.findSome?_singleton]
  | cons c left ih =>
    -- At the ends of `a` the machine's test of a round is the one of the list.
    have step : (a.ends s).findSome? (fun t =>
          if a.progress s t = true then m.rounds a.progress next left t else next t) =
        (a.ends s).findSome? fun t =>
          (if further s t = true then Pattern.rounds a.ends left t else [t]).findSome? next := by
      refine findSome?_congr fun t ht => ?_
      rw [progress_eq ht, ih]
      split <;> simp
    simp only [Machine.rounds, Pattern.rounds, h, step, List.findSome?_append, findSome?_flatMap,
      List.findSome?_singleton]
    cases List.findSome? _ _ <;> rfl

theorem Machine.roundsFew_eq {a : Pattern} {m : Machine}
    (h : ∀ s next, m.run s next = (a.ends s).findSome? next) (next : Next)
    (left : List Char) (s : Place) :
    m.roundsFew a.progress next left s = (Pattern.roundsFew a.ends left s).findSome? next := by
  induction left generalizing s with
  | nil => simp only [Machine.roundsFew, Pattern.roundsFew, List.findSome?_singleton]
  | cons c left ih =>
    have step : (a.ends s).findSome? (fun t =>
          if a.progress s t = true then m.roundsFew a.progress next left t else next t) =
        (a.ends s).findSome? fun t =>
          (if further s t = true then Pattern.roundsFew a.ends left t else [t]).findSome? next := by
      refine findSome?_congr fun t ht => ?_
      rw [progress_eq ht, ih]
      split <;> simp
    simp only [Machine.roundsFew, Pattern.roundsFew, h, step, List.findSome?_cons,
      findSome?_flatMap]
    cases next s <;> rfl

theorem Machine.times_eq {a : Pattern} {m : Machine}
    (h : ∀ s next, m.run s next = (a.ends s).findSome? next) (next : Next) (n : Nat) (s : Place) :
    m.times next n s = (Pattern.roundsOf a.ends n s).findSome? next := by
  induction n generalizing s with
  | zero => simp [Machine.times, Pattern.roundsOf]
  | succ n ih =>
    rw [Machine.times, h, Pattern.roundsOf, findSome?_flatMap]
    exact findSome?_congr fun t _ => ih t

/-- A machine looks through the ends in order. -/
theorem run_eq (a : Pattern) : ∀ {e : Expected} {next : Next}, Respects e next → ∀ s : Place,
    (a.machine e).run s next = (a.ends s).findSome? next := by
  induction a with
  | nothing => intro e next _ s; simp [machine, ends]
  | one p =>
    intro e next _ s
    cases h : s.after with
    | nil => simp [machine, ends, h]
    | cons c r => by_cases hp : p c <;> simp [machine, ends, h, hp]
  | seq a b iha ihb =>
    intro e next hr s
    have hb : (fun t => (b.machine e).run t next) = fun t => (b.ends t).findSome? next :=
      funext fun t => ihb hr t
    simp only [machine, ends, findSome?_flatMap, hb]
    exact iha (hr.before b) s
  | alt a b iha ihb =>
    intro e next hr s
    simp only [machine, ends, iha hr, ihb hr, List.findSome?_append]
    cases List.findSome? _ _ <;> rfl
  | many a ih =>
    intro e next hr s
    cases a with
    | one p =>
      have hs := findSome?_stretch p s.groups hr s.after s.before ' ' []
      have hn := rounds_eq_none_of_expectedBehind p s.groups hr s.after s.before ' '
      simp only [List.findSome?_nil, Option.or_none] at hs
      show (if expectedBehind p e s.after = true then _ else none) = _
      split
      · exact hs
      · next hb => exact (hn (by simpa using hb)).symm
    | _ => exact Machine.rounds_eq (fun s next => ih (respects_none next) s) next _ s
  | few a ih =>
    intro e next hr s
    cases a with
    | one p => exact stretchFew_eq p s.groups hr s.after s.before ' '
    | _ => exact Machine.roundsFew_eq (fun s next => ih (respects_none next) s) next _ s
  | times n a ih =>
    intro e next _ s
    exact Machine.times_eq (fun s next => ih (respects_none next) s) next n s
  | upTo n a ih =>
    intro e next _ s
    exact Machine.rounds_eq (fun s next => ih (respects_none next) s) next _ s
  | upToFew n a ih =>
    intro e next _ s
    exact Machine.roundsFew_eq (fun s next => ih (respects_none next) s) next _ s
  | atomic a ih =>
    intro e next _ s
    simp only [machine, ends, ih (respects_none _)]
    cases a.ends s <;> simp
  | group n a ih =>
    intro e next hr s
    have hg : Respects e fun t => next { t with groups := (n, s.after, t.after) :: t.groups } :=
      fun t ht => hr _ ht
    simp [machine, ends, ih hg, List.findSome?_map, Function.comp_def]
  | start => intro e next _ s; simp only [machine, ends]; split <;> simp
  | stop => intro e next _ s; simp only [machine, ends]; split <;> simp
  | border w => intro e next _ s; simp only [machine, ends]; split <;> simp
  | ahead w a ih =>
    intro e next _ s
    cases w <;> simp only [machine, ends, ih (respects_none _)] <;> cases a.ends s <;> simp
  | behind w p => intro e next _ s; simp only [machine, ends]; split <;> simp
  | back w n a ih =>
    intro e next _ s
    cases w <;> cases hb : s.back? n with
    | none => simp [machine, ends, hb]
    | some u =>
      simp only [machine, ends, hb, ih (respects_none _)]
      cases a.ends u <;> simp
  | again same n =>
    intro e next _ s
    simp only [machine, ends]
    cases (s.group? n).bind fun w => s.past? same w <;> simp
  | given n a b iha ihb =>
    intro e next hr s
    simp only [machine, ends, iha hr, ihb hr]
    split <;> rfl

end NullAccess.Pattern
