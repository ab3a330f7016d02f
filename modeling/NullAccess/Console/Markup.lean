import NullAccess.Text.Lines

/-!
# Markup

Text for the console may hold tags such as `[bold]` and `[/bold]`, which style it and do not show.
A bracket begins a tag if a small letter, `#`, `/` or `@` follows it and the tag is closed before
another bracket opens.  A backslash before a tag makes it plain text, and two backslashes there
stand for one.
-/

namespace NullAccess.Markup

/-- A character that the inside of a tag can begin with. -/
def beginsTag (c : Char) : Bool := ('a' ≤ c && c ≤ 'z') || c == '#' || c == '/' || c == '@'

/-- The inside of a tag up to its closing bracket, and what follows that. -/
def closing? : List Char → Option (List Char × List Char)
  | [] => none
  | c :: r =>
    if c = ']' then some ([], r)
    else if c = '[' then none
    else (closing? r).map fun (inside, rest) => (c :: inside, rest)

theorem length_closing? {t inside rest : List Char} (h : closing? t = some (inside, rest)) :
    t.length = inside.length + rest.length + 1 := by
  induction t generalizing inside rest with
  | nil => simp [closing?] at h
  | cons c r ih =>
    simp only [closing?] at h
    split at h
    · simp only [Option.some.injEq, Prod.mk.injEq] at h
      obtain ⟨rfl, rfl⟩ := h
      simp
    · split at h
      · simp at h
      · obtain ⟨⟨a, b⟩, hab, heq⟩ := Option.map_eq_some_iff.1 h
        simp only [Prod.mk.injEq] at heq
        obtain ⟨rfl, rfl⟩ := heq
        have := ih hab
        simp only [List.length_cons]
        omega

/-- The inside of the tag that begins at an opening bracket, and what follows the tag. -/
def tag? : List Char → Option (List Char × List Char)
  | '[' :: c :: r =>
    if beginsTag c then (closing? r).map fun (inside, rest) => (c :: inside, rest) else none
  | _ => none

theorem length_tag? {t inside rest : List Char} (h : tag? t = some (inside, rest)) :
    t.length = inside.length + rest.length + 2 := by
  unfold tag? at h
  split at h
  · split at h
    · obtain ⟨⟨a, b⟩, hab, heq⟩ := Option.map_eq_some_iff.1 h
      simp only [Prod.mk.injEq] at heq
      obtain ⟨rfl, rfl⟩ := heq
      have := length_closing? hab
      simp only [List.length_cons]
      omega
    · simp at h
  · simp at h

def slashes (n : Nat) : List Char := List.replicate n '\\'

/-- The text that shows, behind `n` backslashes that were read but not written. -/
def shownAfter (n : Nat) : List Char → List Char
  | [] => slashes n
  | c :: r =>
    match h : tag? (c :: r) with
    | some (inside, rest) =>
      have := length_tag? h
      slashes (n / 2) ++ (if n % 2 = 1 then '[' :: inside ++ [']'] else []) ++ shownAfter 0 rest
    | none =>
      if c = '\\' then shownAfter (n + 1) r
      else if c = '[' then slashes (n - 1) ++ '[' :: shownAfter 0 r
      else slashes n ++ c :: shownAfter 0 r
termination_by t => t.length
decreasing_by all_goals grind

/-- The text that shows: tags are left out. -/
def shown (s : String) : List Char := shownAfter 0 s.toList

/-- The text with every tag in it made plain, behind `n` backslashes. -/
def escapeAfter (n : Nat) : List Char → List Char
  | [] => slashes n
  | c :: r =>
    match h : tag? (c :: r) with
    | some (inside, rest) =>
      have := length_tag? h
      slashes (2 * n + 1) ++ '[' :: inside ++ ']' :: escapeAfter 0 rest
    | none => if c = '\\' then escapeAfter (n + 1) r else slashes n ++ c :: escapeAfter 0 r
termination_by t => t.length
decreasing_by all_goals grind

/-- A text as markup that shows it.  A single backslash at the end is doubled, lest it make a tag
behind it plain. -/
def escape (s : String) : String :=
  let t := escapeAfter 0 s.toList
  let last := t.reverse.takeWhile (· == '\\')
  String.ofList (if last.length = 1 then t ++ ['\\'] else t)

def styled (style text : String) : String := s!"[{style}]{text}[/{style}]"

end NullAccess.Markup
