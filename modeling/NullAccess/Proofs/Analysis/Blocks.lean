import NullAccess.Guard.Find
import NullAccess.Proofs.Scope.Letters

/-!
# Blocks that are closed

Two readings of braces go over a file: the scope keeps the open braces and the extents of closed
blocks, and the search for guards counts depths by itself.  They agree (`depth_readLines`).

Behind a line at which no brace is open, nothing can close what was opened before.  So the extents
of blocks opened before stay (`Since`), and a block around a place before is closed before
(`blockEnd_append`).
-/

namespace NullAccess

/-! ## Depths -/

namespace Scope

variable {s : Scope} {c : Char} {l : Line} {ls : List Line} {n m now line : Int} {text : String}
  {old : Extents}

theorem depth_step (n : Int) (text : String) (s : Scope) (c : Char) :
    (step n text s c).depth =
      if c = '{' then s.depth + 1 else if c = '}' then s.depth - 1 else s.depth := by
  by_cases hopen : c = '{'
  · rw [if_pos hopen, hopen, depth_step_open]
  · rw [if_neg hopen]
    by_cases hclose : c = '}'
    · rw [if_pos hclose, hclose, depth_step_close]
    · rw [if_neg hclose, step, if_neg hopen, if_neg hclose]

theorem depth_readLetters (s : Scope) (xs : List Letter) :
    (s.readLetters xs).depth = Guard.advance s.depth (xs.map (·.char)) := by
  induction xs generalizing s with
  | nil => rfl
  | cons x rest ih =>
    have hfirst : (s.readLetter x).depth =
        if x.char = '{' then s.depth + 1 else if x.char = '}' then s.depth - 1 else s.depth :=
      depth_step x.line x.snippet s x.char
    rw [readLetters, List.foldl_cons, List.map_cons, Guard.advance, List.foldl_cons, ← hfirst]
    exact ih (s.readLetter x)

theorem depth_readLine (s : Scope) (l : Line) (n : Int) :
    (s.readLine l n).depth = Guard.advance s.depth l := by
  rw [readLine_eq, depth_readLetters, Letter.map_char_ofLine]

theorem depth_readLines (s : Scope) (n : Int) (ls : List Line) :
    (s.readLines n ls).depth = ls.foldl Guard.advance s.depth := by
  induction ls generalizing s n with
  | nil => rfl
  | cons l rest ih => rw [readLines, ih, depth_readLine, List.foldl_cons]

/-! ## Extents -/

/-- What a walk that began behind line `m` with nothing open has done up to a line: all it opened
and closed lies behind line `m`, and the extents from before are still there. -/
structure Since (m : Int) (old : Extents) (now : Int) (s : Scope) : Prop where
  openings : ∀ o ∈ s.openings, m < o.line ∧ o.line ≤ now
  closings : ∃ new, s.extents.closings = new ++ old.closings ∧
    ∀ p ∈ new, m < p.1 ∧ p.1 ≤ p.2 ∧ p.2 ≤ now

theorem Since.step (h : Since m old now s) (hnow : m < now) (text : String) (c : Char) :
    Since m old now (Scope.step now text s c) := by
  unfold Scope.step
  split
  · refine ⟨List.forall_mem_cons.mpr ⟨⟨hnow, Int.le_refl _⟩, h.openings⟩, h.closings⟩
  · split
    · split
      · exact ⟨h.openings, h.closings⟩
      · rename_i o rest hopen
        obtain ⟨new, hnew, hlater⟩ := h.closings
        have hopenings := h.openings
        rw [hopen] at hopenings
        obtain ⟨hfirst, hrest⟩ := List.forall_mem_cons.mp hopenings
        refine ⟨hrest, (o.line, now) :: new, ?_, List.forall_mem_cons.mpr ⟨?_, hlater⟩⟩
        · dsimp only [Extents.insert]
          rw [hnew, List.cons_append]
        · exact ⟨hfirst.1, hfirst.2, Int.le_refl _⟩
    · exact h

theorem Since.mono {now' : Int} (h : Since m old now s) (hle : now ≤ now') :
    Since m old now' s := by
  refine ⟨fun o ho => ?_, ?_⟩
  · have hline := h.openings o ho
    omega
  · obtain ⟨new, hnew, hlater⟩ := h.closings
    refine ⟨new, hnew, fun p hp => ?_⟩
    have hpair := hlater p hp
    omega

theorem Since.readLine (h : Since m old now s) (hnow : m < now) (l : Line) :
    Since m old now (s.readLine l now) := by
  unfold Scope.readLine
  generalize snippet l = text
  induction l generalizing s with
  | nil => exact h
  | cons c rest ih => exact ih (h.step hnow text c)

theorem Since.readLines (h : Since m old (n - 1) s) (hn : m < n) (ls : List Line) :
    Since m old (n - 1 + ls.length) (s.readLines n ls) := by
  induction ls generalizing s n with
  | nil => exact h.mono (by simp)
  | cons l rest ih =>
    have hfirst : Since m old (n + 1 - 1) (s.readLine l n) :=
      ((h.mono (by omega)).readLine hn l).mono (by omega)
    have hcount : n - 1 + ((l :: rest).length : Int) = n + 1 - 1 + rest.length := by
      rw [List.length_cons]
      omega
    rw [Scope.readLines, hcount]
    exact ih hfirst (by omega)

theorem Since.find? (h : Since m old now s) (hline : line ≤ m) :
    s.extents.find? line = old.find? line := by
  obtain ⟨new, hnew, hlater⟩ := h.closings
  have hnone : new.find? (·.1 == line) = none := by
    rw [List.find?_eq_none]
    intro p hp heq
    have hpair := hlater p hp
    have hp1 : p.1 = line := by simpa using heq
    omega
  rw [Extents.find?, Extents.find?, hnew, List.find?_append, hnone, Option.none_or]

/-- In a whole file a block is closed on the line that opens it or behind it. -/
theorem Since.le_of_find? {closed : Int} (h : Since m {} now s)
    (hfind : s.extents.find? line = some closed) : m < line ∧ line ≤ closed ∧ closed ≤ now := by
  obtain ⟨new, hnew, hlater⟩ := h.closings
  obtain ⟨p, hp, rfl⟩ := Option.map_eq_some_iff.mp hfind
  have hmem := List.mem_of_find?_eq_some hp
  rw [hnew, List.append_nil] at hmem
  have hline : p.1 = line := by simpa using List.find?_some hp
  rw [← hline]
  exact hlater p hmem

theorem since_readLines (ls : List Line) : Since 0 {} ls.length (readLines {} 1 ls) := by
  have hstart : Since 0 {} (1 - 1) {} := ⟨List.forall_mem_nil _, [], rfl, List.forall_mem_nil _⟩
  exact (hstart.readLines (by omega) ls).mono (by omega)

/-! ## Lines that open blocks -/

/-- A block was opened on a line: it is open still, or it was closed. -/
def Opened (line : Int) (s : Scope) : Prop :=
  (∃ o ∈ s.openings, o.line = line) ∨ ∃ p ∈ s.extents.closings, p.1 = line

theorem Opened.step (h : Opened line s) (n : Int) (text : String) (c : Char) :
    Opened line (Scope.step n text s c) := by
  unfold Scope.step
  split
  · rcases h with ⟨o, ho, hline⟩ | hclosed
    · exact .inl ⟨o, List.mem_cons_of_mem _ ho, hline⟩
    · exact .inr hclosed
  · split
    · split
      · exact h
      · rename_i o rest hopen
        rcases h with ⟨o', ho, hline⟩ | ⟨p, hp, hline⟩
        · rw [hopen, List.mem_cons] at ho
          rcases ho with rfl | ho
          · exact .inr ⟨(o'.line, n), List.mem_cons_self, hline⟩
          · exact .inl ⟨o', ho, hline⟩
        · exact .inr ⟨p, List.mem_cons_of_mem _ hp, hline⟩
    · exact h

theorem Opened.readLine (h : Opened line s) (l : Line) (n : Int) :
    Opened line (s.readLine l n) := by
  unfold Scope.readLine
  generalize snippet l = text
  induction l generalizing s with
  | nil => exact h
  | cons c rest ih => exact ih (h.step n text c)

theorem Opened.readLines (h : Opened line s) (n : Int) (ls : List Line) :
    Opened line (s.readLines n ls) := by
  induction ls generalizing s n with
  | nil => exact h
  | cons l rest ih => exact ih (h.readLine l n) (n + 1)

theorem opened_of_brace (s : Scope) (n : Int) (h : '{' ∈ l) : Opened n (s.readLine l n) := by
  unfold Scope.readLine
  generalize snippet l = text
  induction l generalizing s with
  | nil => cases h
  | cons c rest ih =>
    rw [List.foldl_cons]
    rcases List.mem_cons.mp h with rfl | hrest
    · have hopened : Opened n (Scope.step n text s '{') :=
        .inl ⟨⟨s.depth + 1, n, text⟩, List.mem_cons_self, rfl⟩
      clear ih h
      generalize Scope.step n text s '{' = s' at hopened
      induction rest generalizing s' with
      | nil => exact hopened
      | cons d rest ih => exact ih _ (hopened.step n text d)
    · exact ih _ hrest

theorem opened_of_getElem? {i : Nat} (s : Scope) (n : Int) (hl : ls[i]? = some l) (h : '{' ∈ l) :
    Opened (n + i) (s.readLines n ls) := by
  induction ls generalizing s n i with
  | nil => cases hl
  | cons first rest ih =>
    cases i with
    | zero =>
      obtain rfl : first = l := Option.some_inj.mp hl
      have hn : n + ((0 : Nat) : Int) = n := by omega
      rw [hn]
      exact (opened_of_brace s n h).readLines (n + 1) rest
    | succ i =>
      have hn : n + ((i + 1 : Nat) : Int) = n + 1 + i := by omega
      rw [hn]
      exact ih (s.readLine first n) (n + 1) hl

/-- Where no brace is open, what was opened is closed. -/
theorem Opened.isSome (h : Opened line s) (hs : s.openings = []) :
    (s.extents.find? line).isSome = true := by
  rcases h with ⟨o, ho, -⟩ | ⟨p, hp, hline⟩
  · rw [hs] at ho
    cases ho
  · rw [Extents.find?, Option.isSome_map, List.find?_isSome]
    exact ⟨p, hp, by simpa using hline⟩

end Scope

/-! ## Blocks around a place -/

namespace Guard

variable {inner d : Nat} {l raw : Line} {rest ls more : List Line} {n col e : Int}

/-- As long as a block is not closed, the depth stays above that of its beginning. -/
theorem advance_of_pass {k : Nat} (h : pass inner l = some k) (d : Nat) :
    advance (d + 1 + inner) l = d + 1 + k := by
  induction l generalizing inner with
  | nil =>
    cases h
    rfl
  | cons c rest ih =>
    unfold pass at h
    have hstep : advance (d + 1 + inner) (c :: rest) =
        advance (if c = '{' then d + 1 + inner + 1 else if c = '}' then d + 1 + inner - 1
          else d + 1 + inner) rest := rfl
    rw [hstep]
    split at h
    · rename_i hopen
      rw [if_pos hopen]
      exact ih h
    · rename_i hopen
      rw [if_neg hopen]
      split at h
      · rename_i hclose
        rw [if_pos hclose]
        cases inner with
        | zero => cases h
        | succ inner => exact ih h
      · rename_i hclose
        rw [if_neg hclose]
        exact ih h

theorem closingLine_isSome (h : ls.foldl advance (d + 1 + inner) = 0) :
    ∃ e, closingLine inner n ls = some e := by
  induction ls generalizing inner n with
  | nil => simp at h
  | cons l rest ih =>
    unfold closingLine
    cases hpass : pass inner l with
    | none => exact ⟨n, rfl⟩
    | some k =>
      rw [List.foldl_cons, advance_of_pass hpass] at h
      exact ih h

theorem closingLine_append (h : closingLine inner n ls = some e) (more : List Line) :
    closingLine inner n (ls ++ more) = some e := by
  induction ls generalizing inner n with
  | nil => cases h
  | cons l rest ih =>
    rw [List.cons_append]
    unfold closingLine at h ⊢
    cases hpass : pass inner l with
    | none =>
      rw [hpass] at h
      exact h
    | some k =>
      rw [hpass] at h
      exact ih h

/-- A block around a place of some lines behind which nothing is open is closed on these lines. -/
theorem blockEnd_append {depth : Nat} (h : rest.foldl advance (advance depth raw) = 0)
    (more : List Line) :
    blockEnd depth raw (rest ++ more) n col = blockEnd depth raw rest n col := by
  unfold blockEnd
  split
  · rfl
  · rename_i hdepth
    obtain ⟨d, hd⟩ : ∃ d, advance depth (Text.takeTo raw col) = d + 1 + 0 :=
      ⟨advance depth (Text.takeTo raw col) - 1, by omega⟩
    have hsplit : advance depth raw =
        advance (advance depth (Text.takeTo raw col)) (Text.dropTo raw col) := by
      rw [advance, advance, advance, ← List.foldl_append, Text.takeTo_append_dropTo]
    have hclosed : (Text.dropTo raw col :: rest).foldl advance (d + 1 + 0) = 0 := by
      rw [List.foldl_cons, ← hd, ← hsplit]
      exact h
    obtain ⟨e, he⟩ : ∃ e, closingLine 0 n (Text.dropTo raw col :: rest) = some e :=
      closingLine_isSome hclosed
    rw [he, ← List.cons_append]
    exact closingLine_append he more

end Guard

end NullAccess
