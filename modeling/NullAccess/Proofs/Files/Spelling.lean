import Mathlib.Data.List.Infix
import NullAccess.Files.Discover
import NullAccess.Proofs.Ledger.Atomic
import NullAccess.Proofs.Text.Padding

/-!
# Spellings of a path

A place in the file system has many spellings.  A path without `..` and without a link on the way
leads to the place that its names say, and so does a path whose `..` were taken out beforehand
(`Tree.follow_collapse`).  A path reads back from its text (`Path.ofText_text`).  So the name that a
project gives to a path leads back to its place (`place_pathOf_projectName`), and paths to one place
have one name.
-/

namespace NullAccess

/-! ## Taking out `..` -/

namespace Path

theorem collapse_eq_foldl (parts : List String) : collapse parts = parts.foldl Tree.next [] := by
  have hfold : ∀ held : List String,
      (parts.foldl (fun held p => if p = ".." then held.tail else p :: held) held).reverse =
        parts.foldl Tree.next held.reverse := by
    induction parts with
    | nil => exact fun _ => rfl
    | cons p rest ih =>
      intro held
      rw [List.foldl_cons, List.foldl_cons, ih, Tree.next]
      split
      · rw [List.dropLast_reverse]
      · rw [List.reverse_cons]
  exact hfold []

theorem foldl_next_of_notMem {parts : List String} (h : ".." ∉ parts) (l : Location) :
    parts.foldl Tree.next l = l ++ parts := by
  induction parts generalizing l with
  | nil => rw [List.foldl_nil, List.append_nil]
  | cons p rest ih =>
    obtain ⟨hp, hrest⟩ : ".." ≠ p ∧ ".." ∉ rest := by simpa using h
    rw [List.foldl_cons, ih hrest, Tree.next, if_neg (Ne.symm hp), List.append_assoc]
    rfl

theorem notMem_foldl_next {l : Location} (h : ".." ∉ l) (parts : List String) :
    ".." ∉ parts.foldl Tree.next l := by
  induction parts generalizing l with
  | nil => exact h
  | cons p rest ih =>
    refine ih ?_
    rw [Tree.next]
    split
    · exact fun hmem => h (List.mem_of_mem_dropLast hmem)
    · rename_i hp
      simp [h, Ne.symm hp]

theorem mem_of_mem_foldl_next {parts : List String} {l : Location} {n : String}
    (h : n ∈ parts.foldl Tree.next l) : n ∈ l ∨ n ∈ parts := by
  induction parts generalizing l with
  | nil => exact .inl h
  | cons p rest ih =>
    rcases ih h with hnext | hrest
    · rw [Tree.next] at hnext
      split at hnext
      · exact .inl (List.mem_of_mem_dropLast hnext)
      · rcases List.mem_append.mp hnext with hl | hp
        · exact .inl hl
        · exact .inr (List.mem_singleton.mp hp ▸ List.mem_cons_self)
    · exact .inr (List.mem_cons_of_mem p hrest)

theorem collapse_of_notMem {parts : List String} (h : ".." ∉ parts) : collapse parts = parts := by
  rw [collapse_eq_foldl, foldl_next_of_notMem h, List.nil_append]

theorem notMem_collapse (parts : List String) : ".." ∉ collapse parts := by
  rw [collapse_eq_foldl]
  exact notMem_foldl_next List.not_mem_nil parts

theorem collapse_subset (parts : List String) : collapse parts ⊆ parts := by
  intro n hn
  rw [collapse_eq_foldl] at hn
  exact (mem_of_mem_foldl_next hn).resolve_left List.not_mem_nil

theorem collapse_collapse (parts : List String) : collapse (collapse parts) = collapse parts :=
  collapse_of_notMem (notMem_collapse parts)

/-- Names without `..` go down from the place that was reached. -/
theorem collapse_append {more : List String} (h : ".." ∉ more) (parts : List String) :
    collapse (parts ++ more) = collapse parts ++ more := by
  rw [collapse_eq_foldl, collapse_eq_foldl, List.foldl_append, foldl_next_of_notMem h]

theorem settled_settled (p : Path) : p.settled.settled = p.settled := by
  obtain ⟨anchor, parts⟩ := p
  cases anchor <;> simp [settled, absolute, collapse_collapse]

/-- The place that a path leads to. -/
def place (p : Path) : Location := collapse p.parts

theorem settled_eq_of_place {p q : Path} (hp : p.absolute = true) (hq : q.absolute = true)
    (h : p.place = q.place) : p.settled = q.settled := by
  have hcollapse : collapse p.parts = collapse q.parts := h
  rw [settled, settled, if_pos hp, if_pos hq, hcollapse]

end Path

namespace Tree

variable {t : Tree} {l m : Location} {names more : List String}

theorem eq_foldl_of_follow (h : t.follow l names = .ok m) : m = names.foldl next l := by
  induction names generalizing l with
  | nil =>
    cases h
    rfl
  | cons name rest ih =>
    rw [follow_cons] at h
    split at h
    · cases h
    · cases h
    · split at h
      · cases h
      · exact ih h

theorem follow_append (h : t.follow l names = .ok m) :
    t.follow l (names ++ more) = t.follow m more := by
  induction names generalizing l with
  | nil =>
    cases h
    rfl
  | cons name rest ih =>
    rw [follow_cons] at h
    rw [List.cons_append, follow_cons]
    split at h
    · cases h
    · cases h
    · split at h
      · cases h
      · rename_i hlength
        simp only [if_neg hlength]
        exact ih h

/-- A place that was reached is reached again by its own names. -/
theorem follow_place (h : t.follow l names = .ok m) (hl : t.follow [] l = .ok l)
    (hdots : ".." ∉ l) : t.follow [] m = .ok m := by
  induction names generalizing l with
  | nil =>
    cases h
    exact hl
  | cons name rest ih =>
    rw [follow_cons] at h
    split at h
    · cases h
    · cases h
    · rename_i hdir
      split at h
      · cases h
      · rename_i hlength
        by_cases hname : name = ".."
        · rw [next, if_pos hname] at h
          have hdots' : ".." ∉ l.dropLast := fun hmem => hdots (List.mem_of_mem_dropLast hmem)
          -- The place above was reached on the way to this one.
          refine ih h ?_ hdots'
          rcases List.eq_nil_or_concat' l with rfl | ⟨above, last, rfl⟩
          · rfl
          · obtain ⟨d, hd, -⟩ := follow_concat hl
            rw [List.dropLast_concat] at hdots' ⊢
            rw [eq_foldl_of_follow hd, Path.foldl_next_of_notMem hdots', List.nil_append] at hd
            exact hd
        · have hnext : next l name = l ++ [name] := if_neg hname
          rw [hnext] at h
          refine ih h ?_ ?_
          · rw [follow_append hl, follow_cons, hdir]
            simp only [if_neg hlength, hnext]
            rfl
          · simp [hdots, Ne.symm hname]

/-- Without links, `..` can be taken out of a path that leads somewhere. -/
theorem follow_collapse (h : t.follow [] names = .ok m) :
    m = Path.collapse names ∧ t.follow [] (Path.collapse names) = .ok m := by
  have hm : m = Path.collapse names := by
    rw [Path.collapse_eq_foldl]
    exact eq_foldl_of_follow h
  rw [← hm]
  exact ⟨rfl, follow_place h rfl List.not_mem_nil⟩

theorem eq_place_of_locate {p : Path} (h : t.locate p = .ok l) : l = p.place :=
  (follow_collapse (locate_eq_ok_iff.mp h).2.2).1

end Tree

/-! ## Reading a path back -/

/-- A text that is one name in a path. -/
structure IsName (n : String) : Prop where
  ne_empty : n ≠ ""
  ne_dot : n ≠ "."
  noSlash : '/' ∉ n.toList

instance (n : String) : Decidable (IsName n) :=
  decidable_of_iff (n ≠ "" ∧ n ≠ "." ∧ '/' ∉ n.toList)
    ⟨fun h => ⟨h.1, h.2.1, h.2.2⟩, fun h => ⟨h.ne_empty, h.ne_dot, h.noSlash⟩⟩

namespace Path

variable {p root : Path} {parts : List String}

theorem isName_of_mem_ofText {s n : String} (h : n ∈ (ofText s).parts) : IsName n := by
  obtain ⟨hmem, hkept⟩ := List.mem_filter.mp h
  obtain ⟨w, hw, rfl⟩ := List.mem_map.mp hmem
  simp only [Bool.and_eq_true, bne_iff_ne, ne_eq] at hkept
  refine ⟨hkept.1, hkept.2, ?_⟩
  rw [String.toList_ofList]
  exact Text.sep_not_mem_of_mem_splitOn hw

theorem toList_joinParts_cons (n : String) {rest : List String} (h : rest ≠ []) :
    (joinParts (n :: rest)).toList = n.toList ++ '/' :: (joinParts rest).toList := by
  cases rest with
  | nil => exact absurd rfl h
  | cons m rest => simp [joinParts, String.toList_intercalate]

theorem splitOn_joinParts (hne : parts ≠ []) (h : ∀ n ∈ parts, IsName n) :
    Text.splitOn '/' (joinParts parts).toList = parts.map String.toList := by
  induction parts with
  | nil => exact absurd rfl hne
  | cons n rest ih =>
    obtain ⟨hn, hrest⟩ := List.forall_mem_cons.mp h
    cases hempty : rest with
    | nil => simp [joinParts, Text.splitOn_of_not_mem hn.noSlash]
    | cons m more =>
      rw [← hempty]
      have hne' : rest ≠ [] := by simp [hempty]
      rw [toList_joinParts_cons n hne', Text.splitOn_append, Text.splitOn_of_not_mem hn.noSlash,
        ih hne' hrest]
      rfl

/-- The names in a joined text are the names that were joined. -/
theorem filter_splitOn_joinParts (h : ∀ n ∈ parts, IsName n) :
    ((Text.splitOn '/' (joinParts parts).toList).map String.ofList).filter
      (fun n => n != "" && n != ".") = parts := by
  by_cases hne : parts = []
  · subst hne
    rfl
  · have hself : (parts.map String.toList).map String.ofList = parts := by simp
    rw [splitOn_joinParts hne h, hself, List.filter_eq_self]
    intro n hn
    simp [(h n hn).ne_empty, (h n hn).ne_dot]

theorem takeWhile_joinParts (h : ∀ n ∈ parts, IsName n) :
    (joinParts parts).toList.takeWhile (· == '/') = [] := by
  cases parts with
  | nil => rfl
  | cons n rest =>
    obtain ⟨hn, -⟩ := List.forall_mem_cons.mp h
    obtain ⟨c, r, hc⟩ : ∃ c r, n.toList = c :: r :=
      List.exists_cons_of_ne_nil fun hnil => hn.ne_empty (by simpa using hnil)
    have hslash : c ≠ '/' := by
      have := hn.noSlash
      rw [hc] at this
      exact fun heq => this (heq ▸ List.mem_cons_self)
    have hhead : ∃ more, (joinParts (n :: rest)).toList = c :: more := by
      by_cases hrest : rest = []
      · exact ⟨r, by simp [joinParts, hrest, hc]⟩
      · exact ⟨_, by rw [toList_joinParts_cons n hrest, hc, List.cons_append]⟩
    obtain ⟨more, hmore⟩ := hhead
    rw [hmore]
    simp [hslash]

/-- A path reads back from its text. -/
theorem ofText_text (hanchor : p.anchor ≠ .doubleRoot) (h : ∀ n ∈ p.parts, IsName n) :
    ofText p.text = p := by
  obtain ⟨anchor, parts⟩ := p
  have hslashes := takeWhile_joinParts h
  have hnames := filter_splitOn_joinParts h
  cases anchor with
  | doubleRoot => exact absurd rfl hanchor
  | here =>
    by_cases hempty : parts = []
    · subst hempty
      decide
    · have htext : text { anchor := .here, parts } = joinParts parts := by
        simp [text, absolute, hempty]
      rw [htext, ofText, hslashes, hnames]
      rfl
  | root =>
    have htext : (text { anchor := .root, parts }).toList = '/' :: (joinParts parts).toList := by
      simp [text, absolute, Anchor.text]
    have hsplit : Text.splitOn '/' ('/' :: (joinParts parts).toList) =
        [] :: Text.splitOn '/' (joinParts parts).toList := if_pos rfl
    rw [ofText, htext, hsplit, List.takeWhile_cons_of_pos rfl, hslashes, List.map_cons,
      List.filter_cons_of_neg (by decide), hnames]
    rfl

/-! ## Places of a project -/

/-- The path begins at the root of the file system, and nothing is to be taken out of it. -/
structure IsSettled (p : Path) : Prop where
  anchor_eq : p.anchor = .root
  names : ∀ n ∈ p.parts, IsName n
  noDots : ".." ∉ p.parts

theorem IsSettled.absolute (h : p.IsSettled) : p.absolute = true := by
  rw [Path.absolute, h.anchor_eq]
  rfl

theorem isSettled_settled (habsolute : p.absolute = true) (h : ∀ n ∈ p.parts, IsName n) :
    p.settled.IsSettled := by
  refine ⟨?_, fun n hn => h n (collapse_subset p.parts hn), notMem_collapse p.parts⟩
  rw [settled, if_pos habsolute]

/-- A settled path is the same seen from everywhere. -/
theorem IsSettled.resolve_eq (h : p.IsSettled) (dir : Path) : resolve dir p = p := by
  rw [resolve, join_of_absolute h.absolute, settled, if_pos h.absolute, collapse_of_notMem h.noDots,
    ← h.anchor_eq]

theorem absolute_join {q : Path} (h : p.absolute = true) : (p.join q).absolute = true := by
  by_cases hq : q.absolute = true
  · rwa [join_of_absolute hq]
  · rw [join_of_relative (by simpa using hq)]
    exact h

theorem isName_of_mem_join {q : Path} (hp : ∀ n ∈ p.parts, IsName n)
    (hq : ∀ n ∈ q.parts, IsName n) :
    ∀ n ∈ (p.join q).parts, IsName n := by
  by_cases habsolute : q.absolute = true
  · rwa [join_of_absolute habsolute]
  · rw [join_of_relative (by simpa using habsolute)]
    intro n hn
    exact (List.mem_append.mp hn).elim (hp n) (hq n)

theorem isSettled_resolve {cwd : Path} (hcwd : cwd.IsSettled) (s : String) :
    (resolve cwd (ofText s)).IsSettled :=
  isSettled_settled (absolute_join hcwd.absolute)
    (isName_of_mem_join hcwd.names fun _ hn => isName_of_mem_ofText hn)

theorem below?_eq_some {q : Path} (h : root.below? p = some q) :
    q.anchor = .here ∧ p.parts = root.parts ++ q.parts := by
  unfold below? at h
  split at h
  · rename_i hbelow
    rw [Bool.and_eq_true, List.isPrefixOf_iff_prefix] at hbelow
    obtain ⟨rest, hrest⟩ := hbelow.2
    cases h
    refine ⟨rfl, ?_⟩
    rw [← hrest, List.drop_left]
  · cases h

end Path

namespace Discover

open NullAccess.Path

variable {p q : Path}

/-- The name that a project gives to a path leads back to where the path leads. -/
theorem place_pathOf_projectName (root : Path) (habsolute : p.absolute = true)
    (h : ∀ n ∈ p.parts, IsName n) :
    (Approval.pathOf root (projectName root p)).place = p.place := by
  have hsettled := isSettled_settled habsolute h
  unfold projectName Approval.pathOf
  cases hbelow : root.below? p.settled with
  | none =>
    have hread : ofText p.settled.text = p.settled :=
      ofText_text (by rw [hsettled.anchor_eq]; decide) hsettled.names
    rw [Option.getD_none, hread, join_of_absolute hsettled.absolute]
    exact collapse_of_notMem hsettled.noDots
  | some q =>
    obtain ⟨hanchor, hparts⟩ := below?_eq_some hbelow
    have hnames : ∀ n ∈ q.parts, IsName n := by
      intro n hn
      exact hsettled.names n (hparts ▸ List.mem_append_right root.parts hn)
    have hread : ofText q.text = q := ofText_text (by rw [hanchor]; decide) hnames
    have hrelative : q.absolute = false := by
      rw [Path.absolute, hanchor]
      rfl
    rw [Option.getD_some, hread, join_of_relative hrelative]
    show collapse (root.parts ++ q.parts) = p.place
    rw [← hparts]
    exact collapse_of_notMem hsettled.noDots

/-- Paths that lead to one place have one name. -/
theorem projectName_congr (root : Path) (hp : p.absolute = true) (hq : q.absolute = true)
    (h : p.place = q.place) : projectName root p = projectName root q := by
  rw [projectName, projectName, settled_eq_of_place hp hq h]

end Discover

end NullAccess
