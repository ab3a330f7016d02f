import NullAccess.Proofs.Ledger.Operation

/-!
# Operations that fail

An operation that fails leaves the ledger's file as it was, whichever step of the write failed:
making directories changes no file, and the neighbouring file is never the ledger
(`fileKept_of_replaceFile`).  The ledger in memory is as it was too, with one exception.  An edited
ledger that the program itself cannot write, because of an entry that cannot be counted, of a number
that is too long or of its path, stays in memory (`failed_operation_undone_unless_unwritable`).
-/

namespace NullAccess

namespace Tree

variable {t t' t'' : Tree} {l m : Location} {p q : Path} {names : List String}

/-! ## Files that stay -/

/-- The content of the file at a location. -/
def content? (t : Tree) (l : Location) : Option ByteArray :=
  match t.at? l with
  | some (.file c) => some c
  | _ => none

/-- The file that a path leads to is as it was: where the path led somewhere it leads there still,
and the file there has the content that it had. -/
structure FileKept (p : Path) (t t' : Tree) : Prop where
  leads : ∀ m, t.locate p = .ok m → t'.locate p = .ok m
  content : ∀ m, t'.locate p = .ok m → t'.content? m = t.content? m

theorem FileKept.refl (p : Path) (t : Tree) : FileKept p t t := ⟨fun _ h => h, fun _ _ => rfl⟩

/-- A change that makes directories where there was nothing, and no other. -/
def MakesDirs (t t' : Tree) : Prop :=
  ∀ l, t'.at? l = t.at? l ∨ t.at? l = none ∧ t'.at? l = some .dir

namespace MakesDirs

theorem refl (t : Tree) : MakesDirs t t := fun _ => .inl rfl

theorem trans (h : MakesDirs t t') (h' : MakesDirs t' t'') : MakesDirs t t'' := by
  intro l
  rcases h l with hsame | ⟨hnone, hdir⟩
  · rw [← hsame]
    exact h' l
  · rcases h' l with hsame' | ⟨hnone', -⟩
    · exact .inr ⟨hnone, hsame'.trans hdir⟩
    · rw [hdir] at hnone'
      cases hnone'

theorem dirs (h : MakesDirs t t') (l : Location) (hl : t.at? l = some .dir) :
    t'.at? l = some .dir := by
  rcases h l with hsame | ⟨-, hdir⟩
  · rw [hsame, hl]
  · exact hdir

theorem content (h : MakesDirs t t') (l : Location) : t'.content? l = t.content? l := by
  rcases h l with hsame | ⟨hnone, hdir⟩
  · rw [content?, content?, hsame]
  · rw [content?, content?, hnone, hdir]

theorem fileKept (h : MakesDirs t t') (p : Path) : FileKept p t t' :=
  ⟨fun _ hm => locate_of_dirs h.dirs hm, fun m _ => h.content m⟩

end MakesDirs

theorem makesDirs_of_makeDir (h : t.makeDir p = .ok t') : MakesDirs t t' := by
  obtain ⟨l, -, ⟨-, rfl⟩ | ⟨hnone, -, rfl⟩⟩ := makeDir_eq_ok_iff.mp h
  · exact .refl _
  · intro m
    by_cases hlm : l = m
    · subst hlm
      have hne : l ≠ [] := ne_nil_of_at?_ne_dir (by rw [hnone]; nofun)
      exact .inr ⟨hnone, at?_insert_self t .dir hne⟩
    · exact .inl (at?_insert_ne t .dir hlm)

/-- What making directories does and how it fails, from what one directory does. -/
theorem makeDirsFrom_induction {anchor : Anchor} {R : Tree → Tree → Prop} {F : FileError → Prop}
    (hrefl : ∀ t, R t t) (htrans : ∀ {t t' t''}, R t t' → R t' t'' → R t t'')
    (hmake : ∀ {t t' p}, t.makeDir p = .ok t' → R t t')
    (hfail : ∀ {t : Tree} {above : List String} {f},
      above ⊆ names → t.makeDir { anchor, parts := above.reverse } = .error f → F f)
    {r : Except FileError Unit} (h : t.makeDirsFrom anchor names = (t', r)) :
    R t t' ∧ ∀ f, r = .error f → F f := by
  induction names generalizing t' r with
  | nil =>
    cases h
    exact ⟨hrefl t, nofun⟩
  | cons name above ih =>
    rw [makeDirsFrom] at h
    cases hfirst : t.makeDir { anchor, parts := (name :: above).reverse } with
    | ok u =>
      simp only [hfirst] at h
      cases h
      exact ⟨hmake hfirst, nofun⟩
    | error e =>
      simp only [hfirst] at h
      split at h
      · obtain ⟨u, r', habove⟩ : ∃ u r', t.makeDirsFrom anchor above = (u, r') := ⟨_, _, rfl⟩
        -- The directories above are made first, and then the same directory is tried again.
        obtain ⟨hu, hfu⟩ :=
          ih (fun hsub => hfail fun n hn => List.mem_cons_of_mem name (hsub hn)) habove
        rw [habove] at h
        cases r' with
        | error e' =>
          cases h
          exact ⟨hu, fun f hf => hfu f hf⟩
        | ok _ =>
          dsimp only at h
          cases hagain : u.makeDir { anchor, parts := (name :: above).reverse } with
          | ok w =>
            simp only [hagain] at h
            cases h
            exact ⟨htrans hu (hmake hagain), nofun⟩
          | error e' =>
            simp only [hagain] at h
            cases h
            refine ⟨hu, fun f hf => ?_⟩
            cases hf
            exact hfail (List.Subset.refl _) hagain
      · cases h
        refine ⟨hrefl t, fun f hf => ?_⟩
        cases hf
        exact hfail (List.Subset.refl _) hfirst

theorem makesDirs_of_makeDirs {r : Except FileError Unit} (h : t.makeDirs p = (t', r)) :
    MakesDirs t t' :=
  (makeDirsFrom_induction (F := fun _ => True) .refl .trans makesDirs_of_makeDir
    (fun _ _ => trivial) h).1

theorem follow_concat {name : String} (h : t.follow l (names ++ [name]) = .ok m) :
    ∃ d, t.follow l names = .ok d ∧ m = next d name := by
  induction names generalizing l with
  | nil =>
    rw [List.nil_append, follow_cons] at h
    split at h
    · cases h
    · cases h
    · split at h
      · cases h
      · cases h
        exact ⟨l, rfl, rfl⟩
  | cons first rest ih =>
    rw [List.cons_append, follow_cons] at h
    rw [follow_cons]
    split at h
    · cases h
    · cases h
    · split at h
      · cases h
      · rename_i hlength
        obtain ⟨d, hd, hm⟩ := ih h
        simp only [if_neg hlength]
        exact ⟨d, hd, hm⟩

/-! ## Paths with a NUL character -/

theorem nul?_eq_none_iff : p.nul? = none ↔ ∀ n ∈ p.parts, '\x00' ∉ n.toList := by
  simp [Path.nul?]

theorem nul?_of_subset (h : p.nul? = none) (hsub : q.parts ⊆ p.parts) : q.nul? = none :=
  nul?_eq_none_iff.mpr fun n hn => nul?_eq_none_iff.mp h n (hsub hn)

theorem follow_ne_nulInName (t : Tree) (l : Location) (names : List String) :
    t.follow l names ≠ .error .nulInName := by
  induction names generalizing l with
  | nil => nofun
  | cons name rest ih =>
    rw [follow_cons]
    split
    · nofun
    · nofun
    · split
      · nofun
      · exact ih _

theorem locate_ne_nulInName (t : Tree) (h : p.nul? = none) : t.locate p ≠ .error .nulInName := by
  rw [locate, h]
  simp only [Option.isSome_none, Bool.false_eq_true, if_false]
  split
  · simp
  · exact follow_ne_nulInName t [] p.parts

theorem cause_of_makeDir {f : FileError} (hp : p.nul? = none) (h : t.makeDir p = .error f) :
    f.cause ≠ .nulInName := by
  have hlocate := locate_ne_nulInName t hp
  unfold makeDir at h
  cases hl : t.locate p with
  | error c =>
    simp only [hl] at h
    cases h
    rintro rfl
    exact hlocate hl
  | ok l =>
    simp only [hl] at h
    split at h
    · cases h
    · cases h
      nofun
    · split at h <;> cases h <;> nofun

theorem cause_of_makeDirs {f : FileError} (hp : p.nul? = none)
    (h : t.makeDirs p = (t', .error f)) : f.cause ≠ .nulInName := by
  have hfail : ∀ {u : Tree} {above : List String} {f}, above ⊆ p.parts.reverse →
      u.makeDir { anchor := p.anchor, parts := above.reverse } = .error f →
      f.cause ≠ .nulInName := by
    intro u above f hsub hmake
    refine cause_of_makeDir (nul?_of_subset hp fun n hn => ?_) hmake
    exact List.mem_reverse.mp (hsub (List.mem_reverse.mp hn))
  exact (makeDirsFrom_induction (R := fun _ _ => True) (fun _ => trivial) (fun _ _ => trivial)
    (fun _ => trivial) hfail h).2 f rfl

theorem cause_of_write {content : ByteArray} {f : FileError} (hp : p.nul? = none)
    (h : t.write p content = .error f) : f.cause ≠ .nulInName := by
  have hlocate := locate_ne_nulInName t hp
  unfold write at h
  cases hl : t.locate p with
  | error c =>
    simp only [hl] at h
    cases h
    rintro rfl
    exact hlocate hl
  | ok l =>
    simp only [hl] at h
    split at h
    · cases h
      nofun
    · split at h <;> cases h <;> nofun

theorem cause_of_rename {f : FileError} (hp : p.nul? = none) (hq : q.nul? = none)
    (h : t.rename p q = .error f) : f.cause ≠ .nulInName := by
  have hlocate := locate_ne_nulInName t hp
  have hlocate' := locate_ne_nulInName t hq
  unfold rename at h
  cases hl : t.locate p with
  | error c =>
    simp only [hl] at h
    cases h
    rintro rfl
    exact hlocate hl
  | ok l =>
    cases hm : t.locate q with
    | error c =>
      simp only [hl, hm] at h
      cases h
      rintro rfl
      exact hlocate' hm
    | ok m =>
      simp only [hl, hm] at h
      split at h
      · cases h
        nofun
      · split at h <;> cases h <;> nofun

end Tree

namespace Store

open NullAccess.Tree

variable {s s' : Store} {t t' : Tree} {path : Path} {today text : String} {e : LedgerError}

/-! ## The write -/

theorem parts_eq (h : path.parts ≠ []) : path.parts = path.parent.parts ++ [path.name] := by
  rw [Path.parent, Path.name, List.getLast?_eq_some_getLast h, Option.getD_some,
    List.dropLast_append_getLast h]

/-- The neighbouring file is not the ledger. -/
theorem draft_ne {l m : Location} (hparts : path.parts ≠ [])
    (hl : t.locate (draftPath path) = .ok l) (hm : t.locate path = .ok m) : l ≠ m := by
  have hfollow := (locate_eq_ok_iff.mp hl).2.2
  have hfollow' := (locate_eq_ok_iff.mp hm).2.2
  rw [draftPath_parts] at hfollow
  rw [parts_eq hparts] at hfollow'
  obtain ⟨d, hd, rfl⟩ := follow_concat hfollow
  obtain ⟨d', hd', rfl⟩ := follow_concat hfollow'
  obtain rfl : d = d' := Except.ok.inj (hd.symm.trans hd')
  have hlength : (path.name ++ ".tmp").length = path.name.length + 4 :=
    String.length_append _ _
  have hup : path.name ++ ".tmp" ≠ ".." := by
    intro heq
    rw [heq] at hlength
    have htwo : "..".length = 2 := rfl
    omega
  rw [next, if_neg hup, next]
  split
  · intro heq
    have := congrArg List.length heq
    rw [List.length_append, List.length_dropLast, List.length_singleton] at this
    omega
  · intro heq
    have hsame : path.name ++ ".tmp" = path.name := by simpa using List.append_cancel_left heq
    rw [hsame] at hlength
    omega

/-- A write that fails leaves the ledger's file as it was. -/
theorem fileKept_of_replaceFile (h : replaceFile t path text = (t', .error e)) :
    FileKept path t t' := by
  unfold replaceFile at h
  obtain ⟨u, r, hdirs⟩ : ∃ u r, t.makeDirs path.parent = (u, r) := ⟨_, _, rfl⟩
  have hmade := makesDirs_of_makeDirs hdirs
  have hkept := hmade.fileKept path
  rw [hdirs] at h
  cases r with
  | error f =>
    cases h
    exact hkept
  | ok _ =>
    dsimp only at h
    split at h
    · cases h
      exact hkept
    · rename_i hparts
      have hne : path.parts ≠ [] := by simpa using hparts
      cases hwrite : u.write (draftPath path) text.toUTF8 with
      | error f =>
        simp only [hwrite] at h
        cases h
        exact hkept
      | ok w =>
        simp only [hwrite] at h
        split at h
        · cases h
          -- The neighbouring file was written and could not be moved.
          have hdraft := write_keeps hwrite
          obtain ⟨l, hl, -, -, rfl⟩ := write_eq_ok_iff.mp hwrite
          refine ⟨fun m hm => locate_of_dirs hdraft.dirs (hkept.leads m hm), fun m hm => ?_⟩
          have hlm : l ≠ m := draft_ne hne (locate_of_dirs hdraft.dirs hl) hm
          rw [← hmade.content m, content?, content?, at?_insert_ne u _ hlm]
        · cases h

theorem nul?_draftPath (hparts : path.parts ≠ []) (hnul : path.nul? = none) :
    (draftPath path).nul? = none := by
  have hname : '\x00' ∉ path.name.toList := by
    apply nul?_eq_none_iff.mp hnul
    rw [parts_eq hparts]
    exact List.mem_append_right _ List.mem_cons_self
  rw [nul?_eq_none_iff, draftPath_parts]
  intro n hn
  rcases List.mem_append.mp hn with hmem | hlast
  · exact nul?_eq_none_iff.mp hnul n (List.dropLast_subset _ hmem)
  · rw [List.mem_singleton.mp hlast, String.toList_append, List.mem_append, not_or]
    exact ⟨hname, by decide⟩

theorem isUndone_ofWrite {f : FileError} (hf : f.cause ≠ .nulInName) :
    (LedgerError.ofWrite path f).isUndone = true := by
  have hrefusal : f.cause.isRefusal = true := by simpa [Cause.isRefusal] using hf
  rw [LedgerError.ofWrite, if_pos hrefusal]
  rfl

/-- If only the system keeps the file from being written, the change can be undone. -/
theorem isUndone_of_replaceFile (hparts : path.parts ≠ []) (hnul : path.nul? = none)
    (h : replaceFile t path text = (t', .error e)) : e.isUndone = true := by
  have hparent : path.parent.nul? = none := nul?_of_subset hnul (List.dropLast_subset _)
  have hdraft := nul?_draftPath hparts hnul
  unfold replaceFile at h
  split at h
  · rename_i hdirs
    cases h
    exact isUndone_ofWrite (cause_of_makeDirs hparent hdirs)
  · split at h
    · rename_i hempty
      exact absurd (List.isEmpty_iff.mp hempty) hparts
    · split at h
      · rename_i hwrite
        cases h
        exact isUndone_ofWrite (cause_of_write hdraft hwrite)
      · split at h
        · rename_i hrename
          cases h
          exact isUndone_ofWrite (cause_of_rename hdraft hnul hrename)
        · cases h

/-- A ledger that only the system can keep from being written. -/
structure Writable (path : Path) (today : String) (l : Ledger) : Prop where
  countable : l.isCountable = true
  numbers : (l.stamped today).toJson.isWritable = true
  named : path.parts ≠ []
  nulFree : path.nul? = none

theorem fileKept_of_save (h : s.save t today = ⟨t', s', .error e⟩) : FileKept s.path t t' := by
  rcases save_eq_error h with ⟨-, rfl, -, -⟩ | ⟨-, -, ⟨-, rfl, -⟩ | hreplace⟩
  · exact .refl _ _
  · exact .refl _ _
  · exact fileKept_of_replaceFile hreplace

theorem isUndone_of_save (hwritable : Writable s.path today s.data)
    (h : s.save t today = ⟨t', s', .error e⟩) : e.isUndone = true := by
  rcases save_eq_error h with ⟨hcount, -, -, -⟩ | ⟨-, -, ⟨hnumber, -, -⟩ | hreplace⟩
  · rw [hwritable.countable] at hcount
    cases hcount
  · rw [hwritable.numbers] at hnumber
    cases hnumber
  · exact isUndone_of_replaceFile hwritable.named hwritable.nulFree hreplace

/-- What a change that was not undone leaves in memory: the changed ledger, with counts and date if
it could be counted. -/
def leftBehind (s : Store) (today : String) (data : Ledger) : Store :=
  { s with data := if data.isCountable then data.stamped today else data }

theorem save_error_store {data : Ledger}
    (h : Store.save { s with data } t today = ⟨t', s', .error e⟩) :
    s' = s.leftBehind today data := by
  rcases save_eq_error h with ⟨hcount, -, rfl, -⟩ | ⟨hcount, rfl, -⟩ <;> simp [leftBehind, hcount]

end Store

namespace Operation

open Store NullAccess.Tree

variable {s s' : Store} {t t' : Tree} {today : String} {e : LedgerError} {op : Operation}

/-- A failed operation leaves the ledger's file as it was.  It leaves the ledger in memory as it was
when it was refused or its change was undone; otherwise the program could not write the edited
ledger, and this ledger is left in memory. -/
theorem failed_operation_undone_unless_unwritable
    (h : op.perform s t today = ⟨t', s', .error e⟩) :
    FileKept s.path t t' ∧
    ((op.plan s t today = .error e ∨ e.isUndone = true) ∧ s' = s ∨
      ∃ edit, op.plan s t today = .ok (some edit) ∧ e.isUndone = false ∧
        ¬ Writable s.path today (edit.apply s.data) ∧
        s' = s.leftBehind today (edit.apply s.data)) := by
  rcases perform_eq_error h with ⟨hplan, rfl, rfl⟩ | ⟨edit, x, hplan, hsave, hstore⟩
  · exact ⟨.refl _ _, .inl ⟨.inl hplan, rfl⟩⟩
  · refine ⟨fileKept_of_save (s := { s with data := edit.apply s.data }) hsave, ?_⟩
    cases hundone : e.isUndone with
    | true =>
      rw [hundone] at hstore
      exact .inl ⟨.inr rfl, hstore⟩
    | false =>
      rw [hundone] at hstore
      refine .inr ⟨edit, hplan, rfl, fun hwritable => ?_, ?_⟩
      · have htrue := isUndone_of_save (s := { s with data := edit.apply s.data }) hwritable hsave
        rw [hundone] at htrue
        cases htrue
      · exact hstore.trans (save_error_store hsave)

/-- An empty ledger whose file has a given name. -/
def emptyLedger (name : String) : Store :=
  { path := { anchor := .root, parts := ["p", name] }, data := .empty "2025-03-04" }

/-- The addition of one entry. -/
def addition : Operation :=
  .add { id := "n-1", file := "a.js", line := 1, approvedCodeSnapshot := "x.y;",
         approvedDate := "2025-03-05" }

/-- A directory stands in the place of the neighbouring file, so that the system refuses the
write. -/
def blockedTree : Tree := ⟨[(["p"], .dir), (["p", "l.json.tmp"], .dir)]⟩

theorem failed_operation_undone_unless_unwritable_sample :
    ∃ t' s', addition.perform (emptyLedger "l.json") blockedTree "2025-03-05" =
        ⟨t', s', .error (.writeFailed (emptyLedger "l.json").path .isDirectory)⟩ ∧
      FileKept (emptyLedger "l.json").path blockedTree t' ∧ s' = emptyLedger "l.json" := by
  have hfails : (addition.perform (emptyLedger "l.json") blockedTree "2025-03-05").result =
      .error (.writeFailed (emptyLedger "l.json").path .isDirectory) := by
    decide +kernel
  cases h : addition.perform (emptyLedger "l.json") blockedTree "2025-03-05" with
  | mk t' s' r =>
    rw [h] at hfails
    obtain rfl : r = _ := hfails
    obtain ⟨hfile, ⟨-, hstore⟩ | ⟨-, -, hundone, -⟩⟩ := failed_operation_undone_unless_unwritable h
    · exact ⟨t', s', rfl, hfile, hstore⟩
    · cases hundone

/-- With a NUL character in the path of the ledger an addition fails, and its entry stays. -/
theorem failed_addition_stays :
    (addition.perform (emptyLedger "a\x00.json") ⟨[(["p"], .dir)]⟩ "2025-03-05").result =
        .error (.stopped (.file ⟨.nulInName, "/p/a\x00.json.tmp"⟩)) ∧
      (addition.perform (emptyLedger "a\x00.json") ⟨[(["p"], .dir)]⟩ "2025-03-05").store.data ≠
        (emptyLedger "a\x00.json").data := by
  decide +kernel

end Operation

end NullAccess
