import NullAccess.Ledger.Store

/-!
# Replacing a file

A ledger is written by way of a neighbouring file.  This file says what such a write leaves alone:
every location that neither path leads through, and every directory (`replaceFile_keeps`).  So the
other files read as before.  It also shows that a write that was possible once is possible again
(`replaceFile_again`).
-/

namespace NullAccess

namespace Tree

variable {t t' t'' : Tree} {l m : Location} {p q : Path} {n : Node} {content : ByteArray}

/-! ## Following names -/

/-- Where a name leads from a location. -/
def next (l : Location) (name : String) : Location :=
  if name = ".." then l.dropLast else l ++ [name]

/-- The locations that names lead through, with the last one. -/
def way (l : Location) : List String → List Location
  | [] => [l]
  | name :: rest => l :: way (next l name) rest

theorem follow_cons (t : Tree) (l : Location) (name : String) (rest : List String) :
    t.follow l (name :: rest) =
      match t.at? l with
      | none => .error .notFound
      | some (.file _) => .error .notDirectory
      | some .dir =>
        if maxName < name.utf8ByteSize then .error .nameTooLong
        else t.follow (next l name) rest := rfl

theorem follow_congr {names : List String} (h : ∀ m ∈ way l names, t'.at? m = t.at? m) :
    t'.follow l names = t.follow l names := by
  induction names generalizing l with
  | nil => rfl
  | cons name rest ih =>
    rw [way] at h
    rw [follow_cons, follow_cons, h l List.mem_cons_self,
      ih fun m hm => h m (List.mem_cons_of_mem l hm)]

theorem mem_way_of_follow {names : List String} (h : t.follow l names = .ok m) :
    m ∈ way l names := by
  induction names generalizing l with
  | nil =>
    cases h
    exact List.mem_singleton_self _
  | cons name rest ih =>
    rw [follow_cons] at h
    split at h
    · cases h
    · cases h
    · split at h
      · cases h
      · exact List.mem_cons_of_mem l (ih h)

theorem way_subset_append (l : Location) (names more : List String) :
    way l names ⊆ way l (names ++ more) := by
  induction names generalizing l with
  | nil =>
    cases more with
    | nil => exact fun _ h => h
    | cons name rest =>
      intro m hm
      rw [List.mem_singleton.mp hm]
      exact List.mem_cons_self
  | cons name rest ih => exact List.cons_subset_cons l (ih (next l name))

/-- A path that could be followed can be followed in a tree with more directories. -/
theorem follow_of_dirs {names : List String}
    (hdirs : ∀ m, t.at? m = some .dir → t'.at? m = some .dir) (h : t.follow l names = .ok m) :
    t'.follow l names = .ok m := by
  induction names generalizing l with
  | nil => exact h
  | cons name rest ih =>
    rw [follow_cons] at h ⊢
    split at h
    · cases h
    · cases h
    · rename_i hdir
      rw [hdirs l hdir]
      split at h
      · cases h
      · rename_i hlength
        simp only [if_neg hlength]
        exact ih h

theorem locate_eq_ok_iff :
    t.locate p = .ok l ↔
      p.nul? = none ∧ ¬ maxPath ≤ p.text.utf8ByteSize ∧ t.follow [] p.parts = .ok l := by
  unfold locate
  by_cases hnul : p.nul?.isSome = true
  · rw [if_pos hnul]
    refine ⟨nofun, fun h => ?_⟩
    rw [h.1] at hnul
    cases hnul
  · rw [if_neg hnul]
    have hnone : p.nul? = none := by simpa using hnul
    by_cases hlength : maxPath ≤ p.text.utf8ByteSize
    · rw [if_pos hlength]
      exact ⟨nofun, fun h => absurd hlength h.2.1⟩
    · rw [if_neg hlength]
      exact ⟨fun h => ⟨hnone, hlength, h⟩, fun h => h.2.2⟩

theorem locate_of_dirs (hdirs : ∀ m, t.at? m = some .dir → t'.at? m = some .dir)
    (h : t.locate p = .ok l) : t'.locate p = .ok l := by
  rw [locate_eq_ok_iff] at h ⊢
  exact ⟨h.1, h.2.1, follow_of_dirs hdirs h.2.2⟩

theorem mem_way_of_locate (h : t.locate p = .ok l) : l ∈ way [] p.parts :=
  mem_way_of_follow (locate_eq_ok_iff.mp h).2.2

/-- What a path reads depends only on the locations it leads through. -/
theorem read_congr (h : ∀ m ∈ way [] p.parts, t'.at? m = t.at? m) : t'.read p = t.read p := by
  have hlocate : t'.locate p = t.locate p := by
    rw [locate, locate, follow_congr h]
  unfold read
  rw [hlocate]
  cases hl : t.locate p with
  | error c => rfl
  | ok l =>
    simp only
    rw [h l (mem_way_of_locate hl)]

/-! ## What a change keeps -/

/-- A change that alters only some locations and never a directory. -/
structure Keeps (altered : List Location) (t t' : Tree) : Prop where
  elsewhere : ∀ l, l ∉ altered → t'.at? l = t.at? l
  dirs : ∀ l, t.at? l = some .dir → t'.at? l = some .dir

namespace Keeps

variable {altered altered' : List Location}

theorem refl (altered : List Location) (t : Tree) : Keeps altered t t :=
  ⟨fun _ _ => rfl, fun _ h => h⟩

theorem trans (h : Keeps altered t t') (h' : Keeps altered t' t'') : Keeps altered t t'' :=
  ⟨fun l hl => (h'.elsewhere l hl).trans (h.elsewhere l hl), fun l hl => h'.dirs l (h.dirs l hl)⟩

theorem mono (h : Keeps altered t t') (hsub : altered ⊆ altered') : Keeps altered' t t' :=
  ⟨fun l hl => h.elsewhere l fun h' => hl (hsub h'), h.dirs⟩

end Keeps

theorem keeps_insert {altered : List Location} (hl : l ∈ altered) (hdir : t.at? l ≠ some .dir) :
    Keeps altered t (t.insert l n) := by
  have hne : ∀ m, m ≠ l → (t.insert l n).at? m = t.at? m :=
    fun m hm => at?_insert_ne t n hm.symm
  constructor
  · intro m hm
    exact hne m fun h => hm (h ▸ hl)
  · intro m hm
    rw [hne m fun h => hdir (h ▸ hm)]
    exact hm

theorem keeps_erase {altered : List Location} (hl : l ∈ altered) (hdir : t.at? l ≠ some .dir) :
    Keeps altered t (t.erase l) := by
  constructor
  · intro m hm
    exact at?_erase_ne t fun h => hm (h ▸ hl)
  · intro m hm
    have hne : l ≠ m := fun h => hdir (h ▸ hm)
    rw [at?_erase_ne t hne]
    exact hm

theorem ne_nil_of_at?_ne_dir (h : t.at? l ≠ some .dir) : l ≠ [] := by
  rintro rfl
  exact h rfl

/-! ## One step -/

theorem write_eq_ok_iff :
    t.write p content = .ok t' ↔
      ∃ l, t.locate p = .ok l ∧ t.at? l ≠ some .dir ∧ t.at? l.dropLast = some .dir ∧
        t' = t.insert l (.file content) := by
  unfold write
  cases t.locate p with
  | error c => simp
  | ok l =>
    simp only [Except.ok.injEq, exists_eq_left']
    cases hl : t.at? l with
    | none =>
      cases t.at? l.dropLast with
      | none => simp
      | some above => cases above <;> simp [eq_comm]
    | some node =>
      cases node with
      | dir => simp
      | file c =>
        cases t.at? l.dropLast with
        | none => simp
        | some above => cases above <;> simp [eq_comm]

theorem makeDir_eq_ok_iff :
    t.makeDir p = .ok t' ↔
      ∃ l, t.locate p = .ok l ∧
        (t.at? l = some .dir ∧ t' = t ∨
          t.at? l = none ∧ t.at? l.dropLast = some .dir ∧ t' = t.insert l .dir) := by
  unfold makeDir
  cases t.locate p with
  | error c => simp
  | ok l =>
    simp only [Except.ok.injEq, exists_eq_left']
    cases hl : t.at? l with
    | none =>
      cases t.at? l.dropLast with
      | none => simp
      | some above => cases above <;> simp [eq_comm]
    | some node => cases node <;> simp [eq_comm]

theorem rename_eq_ok_iff :
    t.rename p q = .ok t' ↔
      ∃ l m c, t.locate p = .ok l ∧ t.locate q = .ok m ∧ q.name ≠ ".." ∧
        t.at? l = some (.file c) ∧ t.at? m ≠ some .dir ∧
        t' = (t.erase l).insert m (.file c) := by
  unfold rename
  cases t.locate p with
  | error c => simp
  | ok l =>
    cases t.locate q with
    | error c => simp
    | ok m =>
      simp only [Except.ok.injEq, exists_eq_left', exists_and_left]
      by_cases hname : q.name = ".."
      · simp [hname]
      · rw [if_neg hname]
        cases t.at? l with
        | none => simp
        | some node =>
          cases node with
          | dir => simp
          | file c =>
            cases t.at? m with
            | none => simp [hname, eq_comm]
            | some node' => cases node' <;> simp [hname, eq_comm]

theorem write_keeps (h : t.write p content = .ok t') : Keeps (way [] p.parts) t t' := by
  obtain ⟨l, hl, hdir, -, rfl⟩ := write_eq_ok_iff.mp h
  exact keeps_insert (mem_way_of_locate hl) hdir

theorem makeDir_keeps (h : t.makeDir p = .ok t') : Keeps (way [] p.parts) t t' := by
  obtain ⟨l, hl, ⟨-, rfl⟩ | ⟨hnone, -, rfl⟩⟩ := makeDir_eq_ok_iff.mp h
  · exact .refl _ _
  · exact keeps_insert (mem_way_of_locate hl) (by rw [hnone]; nofun)

theorem rename_keeps (h : t.rename p q = .ok t') :
    Keeps (way [] p.parts ++ way [] q.parts) t t' := by
  obtain ⟨l, m, c, hl, hm, -, hfile, hdir, rfl⟩ := rename_eq_ok_iff.mp h
  have hfile' : t.at? l ≠ some .dir := by rw [hfile]; nofun
  have herase : Keeps (way [] p.parts ++ way [] q.parts) t (t.erase l) :=
    keeps_erase (List.mem_append_left _ (mem_way_of_locate hl)) hfile'
  have hdir' : (t.erase l).at? m ≠ some .dir := by
    by_cases hlm : l = m
    · rw [← hlm, at?_erase_self t (ne_nil_of_at?_ne_dir hfile')]
      nofun
    · rwa [at?_erase_ne t hlm]
  exact herase.trans (keeps_insert (List.mem_append_right _ (mem_way_of_locate hm)) hdir')

/-! ## Making directories -/

/-- Directories are made along their own path only. -/
theorem makeDirsFrom_keeps {anchor : Anchor} {names : List String} {r : Except FileError Unit}
    (h : t.makeDirsFrom anchor names = (t', r)) : Keeps (way [] names.reverse) t t' := by
  induction names generalizing t' r with
  | nil =>
    cases h
    exact .refl _ _
  | cons name above ih =>
    rw [makeDirsFrom] at h
    -- The directories above are made along a beginning of the same way.
    have hsub : way [] above.reverse ⊆ way [] (name :: above).reverse := by
      rw [List.reverse_cons]
      exact way_subset_append [] _ _
    cases hmake : t.makeDir { anchor, parts := (name :: above).reverse } with
    | ok u =>
      simp only [hmake] at h
      cases h
      exact makeDir_keeps hmake
    | error e =>
      simp only [hmake] at h
      split at h
      · obtain ⟨u, r', habove⟩ : ∃ u r', t.makeDirsFrom anchor above = (u, r') := ⟨_, _, rfl⟩
        have hu := (ih habove).mono hsub
        rw [habove] at h
        cases r' with
        | error e' =>
          cases h
          exact hu
        | ok _ =>
          simp only at h
          cases hagain : u.makeDir { anchor, parts := (name :: above).reverse } with
          | ok w =>
            simp only [hagain] at h
            cases h
            exact hu.trans (makeDir_keeps hagain)
          | error e' =>
            simp only [hagain] at h
            cases h
            exact hu
      · cases h
        exact .refl _ _

theorem makeDirs_of_ne_nil (t : Tree) (h : p.parts ≠ []) :
    t.makeDirs p =
      match t.makeDir p with
      | .ok t' => (t', .ok ())
      | .error e =>
        if e.cause = .notFound then
          match t.makeDirs p.parent with
          | (t', .error e') => (t', .error e')
          | (t', .ok ()) =>
            match t'.makeDir p with
            | .ok t'' => (t'', .ok ())
            | .error e' => (t', .error e')
        else (t, .error e) := by
  cases hnames : p.parts.reverse with
  | nil => exact absurd (List.reverse_eq_nil_iff.mp hnames) h
  | cons name above =>
    have hparts : p.parts = above.reverse ++ [name] := by
      rw [← List.reverse_cons, ← hnames, List.reverse_reverse]
    have hp : ({ anchor := p.anchor, parts := (name :: above).reverse } : Path) = p := by
      rw [← hnames, List.reverse_reverse]
    have hparent : t.makeDirs p.parent = t.makeDirsFrom p.anchor above := by
      rw [makeDirs, Path.parent, hparts, List.dropLast_concat, List.reverse_reverse]
    rewrite [hparent, makeDirs, hnames, makeDirsFrom, hp]
    rfl

/-- The last step of making directories makes the directory itself. -/
theorem makeDir_of_makeDirs (h : t.makeDirs p = (t', .ok ())) (hparts : p.parts ≠ []) :
    ∃ u : Tree, u.makeDir p = .ok t' := by
  rw [makeDirs_of_ne_nil t hparts] at h
  cases hmake : t.makeDir p with
  | ok u =>
    simp only [hmake] at h
    cases h
    exact ⟨t, hmake⟩
  | error e =>
    simp only [hmake] at h
    split at h
    · split at h
      · cases h
      · rename_i u _
        cases hagain : u.makeDir p with
        | ok w =>
          simp only [hagain] at h
          cases h
          exact ⟨u, hagain⟩
        | error e' =>
          simp only [hagain] at h
          cases h
    · cases h

theorem makeDirs_of_dirs (h : t.makeDirs p = (t', .ok ()))
    (hdirs : ∀ m, t'.at? m = some .dir → t''.at? m = some .dir) :
    t''.makeDirs p = (t'', .ok ()) := by
  by_cases hparts : p.parts = []
  · rw [makeDirs, hparts]
    rfl
  · obtain ⟨u, hu⟩ := makeDir_of_makeDirs h hparts
    have hkeeps := makeDir_keeps hu
    have hmade : ∃ l, u.locate p = .ok l ∧ t'.at? l = some .dir := by
      obtain ⟨l, hl, ⟨hdir, rfl⟩ | ⟨hnone, -, rfl⟩⟩ := makeDir_eq_ok_iff.mp hu
      · exact ⟨l, hl, hdir⟩
      · exact ⟨l, hl, at?_insert_self u .dir (ne_nil_of_at?_ne_dir (by rw [hnone]; nofun))⟩
    obtain ⟨l, hl, hdir⟩ := hmade
    have hagain : t''.makeDir p = .ok t'' :=
      makeDir_eq_ok_iff.mpr ⟨l, locate_of_dirs (fun m hm => hdirs m (hkeeps.dirs m hm)) hl,
        .inl ⟨hdirs l hdir, rfl⟩⟩
    rw [makeDirs_of_ne_nil t'' hparts, hagain]

end Tree

namespace Store

open NullAccess.Tree

variable {t t' : Tree} {path : Path} {text : String}

/-! ## The write as a whole -/

/-- The locations that a write of the ledger leads through: those of its path and of the
neighbouring file. -/
def touched (path : Path) : List Location :=
  way [] path.parts ++ way [] (draftPath path).parts

theorem replaceFile_eq_ok_iff :
    replaceFile t path text = (t', .ok ()) ↔
      ∃ t₁ t₂, t.makeDirs path.parent = (t₁, .ok ()) ∧ path.parts ≠ [] ∧
        t₁.write (draftPath path) text.toUTF8 = .ok t₂ ∧
        t₂.rename (draftPath path) path = .ok t' := by
  unfold replaceFile
  obtain ⟨u, r, hdirs⟩ : ∃ u r, t.makeDirs path.parent = (u, r) := ⟨_, _, rfl⟩
  rw [hdirs]
  cases r with
  | error e => simp
  | ok _ =>
    simp only [Prod.mk.injEq, and_true, exists_and_left, exists_eq_left']
    by_cases hparts : path.parts = []
    · simp [hparts]
    · rw [if_neg (by simpa using hparts)]
      cases hwrite : u.write (draftPath path) text.toUTF8 with
      | error e => simp
      | ok w =>
        simp only [Except.ok.injEq, exists_eq_left']
        cases hrename : w.rename (draftPath path) path with
        | error e => simp
        | ok x => simp [hparts]

theorem draftPath_parts (path : Path) :
    (draftPath path).parts = path.parent.parts ++ [path.name ++ ".tmp"] := rfl

/-- A write alters only what it leads through, and no directory. -/
theorem replaceFile_keeps (h : replaceFile t path text = (t', .ok ())) :
    Keeps (touched path) t t' := by
  obtain ⟨t₁, t₂, hdirs, -, hwrite, hrename⟩ := replaceFile_eq_ok_iff.mp h
  have hdraft : way [] (draftPath path).parts ⊆ touched path := List.subset_append_right _ _
  have hparent : way [] path.parent.parts ⊆ touched path := by
    refine fun m hm => hdraft ?_
    rw [draftPath_parts]
    exact way_subset_append [] _ _ hm
  have h₁ : Keeps (touched path) t t₁ := by
    have hkeeps := makeDirsFrom_keeps hdirs
    rw [List.reverse_reverse] at hkeeps
    exact hkeeps.mono hparent
  have h₂ : Keeps (touched path) t₁ t₂ := (write_keeps hwrite).mono hdraft
  have h₃ : Keeps (touched path) t₂ t' := by
    refine (rename_keeps hrename).mono fun m hm => ?_
    rw [touched, List.mem_append]
    exact (List.mem_append.mp hm).symm
  exact (h₁.trans h₂).trans h₃

/-- A file that was written once can be written again. -/
theorem replaceFile_again (h : replaceFile t path text = (t', .ok ())) (text' : String) :
    ∃ t'', replaceFile t' path text' = (t'', .ok ()) := by
  obtain ⟨t₁, t₂, hmade, hparts, hwrite, hrename⟩ := replaceFile_eq_ok_iff.mp h
  have hkeep₂ := write_keeps hwrite
  have hkeep₃ := rename_keeps hrename
  have hdirs : ∀ m, t₁.at? m = some .dir → t'.at? m = some .dir :=
    fun m hm => hkeep₃.dirs m (hkeep₂.dirs m hm)
  obtain ⟨l, hl, hfree, habove, -⟩ := write_eq_ok_iff.mp hwrite
  obtain ⟨l', m, c, hl', hm, hname, -, hfree', ht'⟩ := rename_eq_ok_iff.mp hrename
  have hsame : l' = l := by
    rw [locate_of_dirs hkeep₂.dirs hl] at hl'
    cases hl'
    rfl
  subst hsame
  -- The ledger stands where the neighbouring file was moved to, which is gone.
  have hledger : t'.at? m = some (.file c) := by
    rw [ht']
    exact at?_insert_self _ _ (ne_nil_of_at?_ne_dir hfree')
  have hdraft : t'.at? l' ≠ some .dir := by
    by_cases hlm : m = l'
    · rw [← hlm, hledger]
      nofun
    · rw [ht', at?_insert_ne _ _ hlm, at?_erase_self _ (ne_nil_of_at?_ne_dir hfree)]
      nofun
  have hwrite' : t'.write (draftPath path) text'.toUTF8 = .ok (t'.insert l' (.file text'.toUTF8)) :=
    write_eq_ok_iff.mpr ⟨l', locate_of_dirs hdirs hl, hdraft, hdirs _ habove, rfl⟩
  have hkeep₄ := write_keeps hwrite'
  have hledger' : (t'.insert l' (.file text'.toUTF8)).at? m ≠ some .dir := by
    by_cases hlm : l' = m
    · rw [← hlm, at?_insert_self _ _ (ne_nil_of_at?_ne_dir hfree)]
      nofun
    · rw [at?_insert_ne _ _ hlm, hledger]
      nofun
  refine ⟨_, replaceFile_eq_ok_iff.mpr ⟨t', _, makeDirs_of_dirs hmade hdirs, hparts, hwrite',
    rename_eq_ok_iff.mpr ⟨l', m, text'.toUTF8, ?_, ?_, hname, ?_, hledger', rfl⟩⟩⟩
  · exact locate_of_dirs (fun m hm => hkeep₄.dirs m (hdirs m hm)) hl
  · exact locate_of_dirs (fun m hm => hkeep₄.dirs m (hkeep₃.dirs m hm)) hm
  · exact at?_insert_self _ _ (ne_nil_of_at?_ne_dir hfree)

end Store

end NullAccess
