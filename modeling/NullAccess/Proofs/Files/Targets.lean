import NullAccess.Proofs.Files.Spelling
import NullAccess.Proofs.Report.Partition

/-!
# The files that arguments stand for

Arguments are turned into names of files, and a name that came up before is dropped.  What has to be
shown is that this drops files and not only names: two names that are left denote two places
(`targets_denote_each_file_once`).  A name of the project is read back as the path it was made from,
up to its spelling, so that it is a function of the place; and every place an argument stands for
keeps a name.
-/

namespace NullAccess

/-- Every name in the tree can stand in a path, and none of them is `..`. -/
def Tree.WellNamed (t : Tree) : Prop := ∀ x ∈ t.nodes, ∀ n ∈ x.1, IsName n ∧ n ≠ ".."

/-- The path goes down from the directory it is seen from. -/
structure Path.GoesDown (p : Path) : Prop where
  relative : p.absolute = false
  ne_nil : p.parts ≠ []
  noDots : ".." ∉ p.parts

namespace Discover

open NullAccess.Path

variable {t : Tree} {listing : Listing} {dir f : Path} {extra : List String} {ws : List Warning}
  {fs : List Path} {origin : Origin}

theorem mem_sorted {ps : List Path} {p : Path} : p ∈ sorted ps ↔ p ∈ ps := by
  rw [sorted, List.mem_mergeSort]

/-- What was found comes from the answer of version control or from a walk. -/
theorem mem_files (h : files t listing dir extra = (ws, .ok (fs, origin))) (hf : f ∈ fs) :
    (∃ text, listing = .listed text ∧ f ∈ ofListing text) ∨ f ∈ walk t dir.settled := by
  have hwalk : ∀ {r : List Path × Origin},
      (byWalk t dir.settled extra).map (fun ps => (ps, Origin.directory)) = .ok r → f ∈ r.1 →
        f ∈ walk t dir.settled := by
    intro r hr hmem
    cases hwalked : byWalk t dir.settled extra with
    | error e =>
      rw [hwalked] at hr
      cases hr
    | ok ps =>
      rw [hwalked] at hr
      cases hr
      unfold byWalk at hwalked
      split at hwalked
      · cases hwalked
      · cases hwalked
        exact (List.mem_filter.mp hmem).1
  unfold files at h
  dsimp only at h
  split at h
  · cases h
  · cases h
  · cases h
  · cases h
  · split at h
    · split at h
      · rename_i text
        cases h
        exact .inl ⟨text, rfl, (List.mem_filter.mp hf).1⟩
      · exact .inr (hwalk (Prod.ext_iff.mp h).2 hf)
      · exact .inr (hwalk (Prod.ext_iff.mp h).2 hf)
    · exact .inr (hwalk (Prod.ext_iff.mp h).2 hf)

theorem isName_of_mem_ofListing {text : String} (h : f ∈ ofListing text) :
    ∀ n ∈ f.parts, IsName n := by
  rw [ofListing, mem_sorted] at h
  obtain ⟨l, -, rfl⟩ := List.mem_map.mp h
  exact fun n hn => isName_of_mem_ofText hn

theorem goesDown_of_mem_walk (ht : t.WellNamed) (h : f ∈ walk t dir) :
    f.GoesDown ∧ ∀ n ∈ f.parts, IsName n := by
  unfold walk at h
  split at h
  · rename_i l _
    rw [mem_sorted] at h
    obtain ⟨parts, hparts, rfl⟩ := List.mem_map.mp h
    obtain ⟨⟨m, node⟩, hnode, hbelow⟩ := List.mem_filterMap.mp hparts
    cases node with
    | dir => cases hbelow
    | file content =>
      dsimp only at hbelow
      split at hbelow
      · rename_i hlength
        cases hbelow
        have hnames : ∀ n ∈ m.drop l.length, IsName n ∧ n ≠ ".." := by
          intro n hn
          exact ht _ hnode n (List.mem_of_mem_drop hn)
        refine ⟨⟨rfl, ?_, fun hdots => (hnames _ hdots).2 rfl⟩, fun n hn => (hnames n hn).1⟩
        show m.drop l.length ≠ []
        rw [Ne, List.drop_eq_nil_iff]
        omega
      · cases hbelow
  · cases h

theorem isName_of_mem_files (ht : t.WellNamed)
    (h : files t listing dir extra = (ws, .ok (fs, origin))) (hf : f ∈ fs) :
    ∀ n ∈ f.parts, IsName n := by
  rcases mem_files h hf with ⟨text, -, hlisted⟩ | hwalked
  · exact isName_of_mem_ofListing hlisted
  · exact (goesDown_of_mem_walk ht hwalked).2

namespace Search

variable {s : Search} {arg r : String} {args found names : List String} {p : Path}

/-! ## One argument -/

/-- The system finds a directory under an argument. -/
def IsDirectory (s : Search) (arg : String) : Prop := s.tree.node? (s.seen arg) = some .dir

/-- The endings that count. -/
def allowed (s : Search) : List String := if s.extensions.isEmpty then s.usual else s.extensions

/-- The paths that an argument stands for: its own, or those of the files in its directory. -/
inductive StandsFor (s : Search) (arg : String) : Path → Prop where
  | self (h : ¬ s.IsDirectory arg) : StandsFor s arg (s.seen arg)
  | found {ws : List Warning} {fs : List Path} {origin : Origin} {f : Path}
      (h : s.IsDirectory arg)
      (hfiles : files s.tree (s.listing (s.seen arg).settled) (s.seen arg) s.ignore =
        (ws, .ok (fs, origin)))
      (hf : f ∈ fs) (hsuffix : f.suffix ∈ s.allowed) : StandsFor s arg ((s.seen arg).join f)

theorem probe_eq_dir_iff {t : Tree} {r : Option Node} (h : t.probe p = .ok r) :
    r = some .dir ↔ t.node? p = some .dir := by
  unfold Tree.probe at h
  unfold Tree.node?
  split at h
  · rename_i l hl
    cases h
    rw [hl]
  · cases h
  · rename_i c _ hc
    cases h
    rw [hc]

theorem expand_eq_ok (h : s.expand arg = (ws, .ok found)) :
    ∃ ps : List Path, found = ps.map (projectName s.root) ∧ ∀ p, p ∈ ps ↔ s.StandsFor arg p := by
  unfold expand at h
  dsimp only at h
  split at h
  · cases h
  · cases h
  · rename_i hprobe
    have hdir : s.IsDirectory arg := (probe_eq_dir_iff hprobe).mp rfl
    split at h
    · cases h
    · rename_i ws' fs origin hfiles
      cases h
      refine ⟨(withExtension s.usual s.extensions fs).map (s.seen arg).join, ?_, ?_⟩
      · rw [List.map_map]
        rfl
      · intro p
        constructor
        · intro hp
          obtain ⟨f, hf, rfl⟩ := List.mem_map.mp hp
          obtain ⟨hmem, hsuffix⟩ := List.mem_filter.mp hf
          exact .found hdir hfiles hmem (List.contains_iff_mem.mp hsuffix)
        · intro hp
          cases hp with
          | self hnot => exact absurd hdir hnot
          | found _ hfiles' hf hsuffix =>
            rw [hfiles] at hfiles'
            cases hfiles'
            exact List.mem_map_of_mem
              (List.mem_filter.mpr ⟨hf, List.contains_iff_mem.mpr hsuffix⟩)
  · rename_i hother _ hprobe
    have hnot : ¬ s.IsDirectory arg := fun hdir => hother ((probe_eq_dir_iff hprobe).mpr hdir)
    cases h
    refine ⟨[s.seen arg], rfl, fun p => ?_⟩
    rw [List.mem_singleton]
    constructor
    · intro hp
      subst hp
      exact .self hnot
    · intro hp
      cases hp with
      | self _ => rfl
      | found hdir _ _ _ => exact absurd hdir hnot

/-! ## All arguments -/

/-- The arguments; the root of the project if there are none. -/
def arguments (s : Search) (args : List String) : List String :=
  if args.isEmpty then [s.root.text] else args

theorem mem_expandAll_iff (h : s.expandAll args = (ws, .ok found)) (n : String) :
    n ∈ found ↔ ∃ arg ∈ args, ∃ p, s.StandsFor arg p ∧ projectName s.root p = n := by
  induction args generalizing ws found with
  | nil =>
    cases h
    simp
  | cons arg rest ih =>
    unfold expandAll at h
    split at h
    · cases h
    · rename_i first hfirst
      obtain ⟨ps, rfl, hps⟩ := expand_eq_ok hfirst
      obtain ⟨more, others, hrest⟩ : ∃ more others, s.expandAll rest = (more, others) :=
        ⟨_, _, rfl⟩
      rw [hrest] at h
      cases others with
      | error e => cases h
      | ok others =>
        cases h
        rw [List.mem_append, ih hrest, List.mem_map]
        simp only [hps, List.mem_cons, exists_eq_or_imp]

/-- Nothing is to be done to a root that was resolved before. -/
theorem rooted_eq (hcwd : s.cwd.IsSettled) (hroot : s.root = resolve s.cwd (ofText r)) :
    s.rooted = s := by
  have hsettled : s.root.IsSettled := hroot ▸ isSettled_resolve hcwd r
  rw [rooted, hsettled.resolve_eq]

theorem targets_eq_ok (h : s.targets args = (ws, .ok names)) :
    names.Nodup ∧ ∀ n, n ∈ names ↔
      ∃ arg ∈ s.rooted.arguments args, ∃ p, s.rooted.StandsFor arg p ∧
        projectName s.rooted.root p = n := by
  unfold targets at h
  obtain ⟨ws', r, hall⟩ : ∃ ws' r, s.rooted.expandAll (s.rooted.arguments args) = (ws', r) :=
    ⟨_, _, rfl⟩
  rw [arguments] at hall
  rw [hall] at h
  cases r with
  | error e => cases h
  | ok found =>
    cases h
    obtain ⟨hnodup, hmem⟩ := eraseDups_spec found
    exact ⟨hnodup, fun n => (hmem n).trans (mem_expandAll_iff hall n)⟩

/-! ## Places -/

/-- The place that a name of the project leads to. -/
def denoted (s : Search) (n : String) : Location := (Approval.pathOf s.root n).place

theorem spelled_seen (hcwd : s.cwd.IsSettled) (arg : String) :
    (s.seen arg).absolute = true ∧ ∀ n ∈ (s.seen arg).parts, IsName n := by
  unfold seen
  dsimp only
  split
  · rename_i habsolute
    exact ⟨habsolute, fun n hn => isName_of_mem_ofText hn⟩
  · have hsettled := isSettled_resolve hcwd arg
    exact ⟨hsettled.absolute, hsettled.names⟩

theorem StandsFor.spelled (hcwd : s.cwd.IsSettled) (ht : s.tree.WellNamed)
    (h : s.StandsFor arg p) : p.absolute = true ∧ ∀ n ∈ p.parts, IsName n := by
  obtain ⟨habsolute, hnames⟩ := spelled_seen hcwd arg
  cases h with
  | self _ => exact ⟨habsolute, hnames⟩
  | found _ hfiles hf _ =>
    exact ⟨absolute_join habsolute, isName_of_mem_join hnames (isName_of_mem_files ht hfiles hf)⟩

theorem place_of_goesDown {dir f : Path} (h : f.GoesDown) :
    (dir.join f).place = dir.place ++ f.parts := by
  rw [join_of_relative h.relative]
  exact collapse_append h.noDots dir.parts

/-- No arguments mean the root. -/
theorem seen_root (hcwd : s.cwd.IsSettled) (hroot : s.root = resolve s.cwd (ofText r)) :
    s.seen s.root.text = s.root := by
  have hsettled : s.root.IsSettled := hroot ▸ isSettled_resolve hcwd r
  have hread : ofText s.root.text = s.root :=
    ofText_text (by rw [hsettled.anchor_eq]; decide) hsettled.names
  unfold seen
  dsimp only
  rw [hread, if_pos hsettled.absolute]

/-- Arguments are turned into the files that they stand for, each once.  No two names that are given
denote one place, and the places that are denoted are those of the arguments that are no directories
and of the files of the counted endings that are found in directories; without arguments, in the
root.  What is found in a directory lies below it, if version control lists only such files. -/
theorem targets_denote_each_file_once (hcwd : s.cwd.IsSettled)
    (hroot : s.root = resolve s.cwd (ofText r)) (ht : s.tree.WellNamed)
    (h : s.targets args = (ws, .ok names)) :
    (∀ n l, s.tree.locate (Approval.pathOf s.root n) = .ok l → l = s.denoted n) ∧
    s.seen s.root.text = s.root ∧
    (names.map s.denoted).Nodup ∧
    (∀ l, l ∈ names.map s.denoted ↔
      ∃ arg ∈ s.arguments args, ∃ p, s.StandsFor arg p ∧ p.place = l) ∧
    (∀ arg, s.IsDirectory arg →
      (∀ text, s.listing (s.seen arg).settled = .listed text → ∀ f ∈ ofListing text, f.GoesDown) →
      ∀ p, s.StandsFor arg p → ∃ below, below ≠ [] ∧ p.place = (s.seen arg).place ++ below) := by
  obtain ⟨hnodup, hmem⟩ := targets_eq_ok h
  rw [rooted_eq hcwd hroot] at hmem
  have hdenoted : ∀ {arg p}, s.StandsFor arg p → s.denoted (projectName s.root p) = p.place := by
    intro arg p hp
    obtain ⟨habsolute, hnames⟩ := hp.spelled hcwd ht
    exact place_pathOf_projectName s.root habsolute hnames
  refine ⟨fun n l hl => Tree.eq_place_of_locate hl, seen_root hcwd hroot, ?_, ?_, ?_⟩
  · refine hnodup.map_on fun n hn m hm hsame => ?_
    obtain ⟨arg, -, p, hp, rfl⟩ := (hmem n).mp hn
    obtain ⟨arg', -, q, hq, rfl⟩ := (hmem m).mp hm
    rw [hdenoted hp, hdenoted hq] at hsame
    exact projectName_congr s.root (hp.spelled hcwd ht).1 (hq.spelled hcwd ht).1 hsame
  · intro l
    rw [List.mem_map]
    constructor
    · intro hl
      obtain ⟨n, hn, rfl⟩ := hl
      obtain ⟨arg, harg, p, hp, rfl⟩ := (hmem n).mp hn
      exact ⟨arg, harg, p, hp, (hdenoted hp).symm⟩
    · intro hl
      obtain ⟨arg, harg, p, hp, rfl⟩ := hl
      exact ⟨_, (hmem _).mpr ⟨arg, harg, p, hp, rfl⟩, hdenoted hp⟩
  · intro arg hdir hgit p hp
    cases hp with
    | self hnot => exact absurd hdir hnot
    | found _ hfiles hf _ =>
      rename_i f _ _
      -- Version control is taken at its word; what is found on a walk goes down in any case.
      have hdown : f.GoesDown := by
        rcases mem_files hfiles hf with ⟨text, hlisted, hline⟩ | hwalked
        · exact hgit text hlisted f hline
        · exact (goesDown_of_mem_walk ht hwalked).1
      exact ⟨f.parts, hdown.ne_nil, place_of_goesDown hdown⟩

theorem walk_of_pairwise {t : Tree} {dir : Path} {l : Location} {ps : List Path}
    (hl : t.locate dir = .ok l) (hps : (t.filesBelow l).map (fun parts => { parts }) = ps)
    (hsorted : ps.Pairwise fun p q => p.le q = true) : walk t dir = ps := by
  rw [walk, hl]
  dsimp only
  rw [hps]
  exact List.mergeSort_of_pairwise hsorted

/-- A project with a file in a directory and one beside it, and a file outside. -/
def overlapping : Search :=
  { tree :=
      ⟨[(["p"], .dir), (["p", "a.js"], .file "".toUTF8), (["p", "n.txt"], .file "".toUTF8),
        (["p", "sub"], .dir), (["p", "sub", "b.js"], .file "".toUTF8),
        (["q.js"], .file "".toUTF8)]⟩,
    root := { anchor := .root, parts := ["p"] }, cwd := { anchor := .root, parts := ["p"] },
    usual := [".js"] }

theorem targets_denote_each_file_once_sample :
    ∃ names,
      overlapping.targets ["sub", ".", "/p/sub/../a.js", "n.txt", "../q.js"] = ([], .ok names) ∧
      (names.map overlapping.denoted).Nodup ∧
      ∃ arg p, overlapping.StandsFor arg p ∧ p.place = ["p", "sub", "b.js"] := by
  have hsub : overlapping.expand "sub" = ([], .ok ["sub/b.js"]) := by
    have hwalk : walk overlapping.tree (overlapping.seen "sub").settled =
        [{ parts := ["b.js"] }] :=
      walk_of_pairwise (l := ["p", "sub"]) (by decide +kernel) (by decide +kernel)
        (by decide +kernel)
    unfold expand files byWalk
    dsimp only
    rw [hwalk]
    decide +kernel
  have hhere : overlapping.expand "." = ([], .ok ["a.js", "sub/b.js"]) := by
    have hwalk : walk overlapping.tree (overlapping.seen ".").settled =
        [{ parts := ["a.js"] }, { parts := ["n.txt"] }, { parts := ["sub", "b.js"] }] :=
      walk_of_pairwise (l := ["p"]) (by decide +kernel) (by decide +kernel) (by decide +kernel)
    unfold expand files byWalk
    dsimp only
    rw [hwalk]
    decide +kernel
  have hall : overlapping.expandAll ["sub", ".", "/p/sub/../a.js", "n.txt", "../q.js"] =
      ([], .ok ["sub/b.js", "a.js", "sub/b.js", "a.js", "n.txt", "/q.js"]) := by
    rw [expandAll, hsub, expandAll, hhere]
    decide +kernel
  have hcwd : overlapping.cwd.IsSettled := ⟨rfl, by decide, by decide⟩
  have hroot : overlapping.root = resolve overlapping.cwd (ofText ".") := by decide
  have htargets : overlapping.targets ["sub", ".", "/p/sub/../a.js", "n.txt", "../q.js"] =
      ([], .ok ["sub/b.js", "a.js", "n.txt", "/q.js"]) := by
    rw [targets, rooted_eq hcwd hroot, List.isEmpty_cons, if_neg Bool.false_ne_true, hall]
    decide +kernel
  have ht : overlapping.tree.WellNamed := by
    rw [Tree.WellNamed]
    decide
  obtain ⟨-, -, hnodup, hplaces, -⟩ := targets_denote_each_file_once hcwd hroot ht htargets
  obtain ⟨arg, -, p, hp, hplace⟩ := (hplaces ["p", "sub", "b.js"]).mp (by decide +kernel)
  exact ⟨_, htargets, hnodup, arg, p, hp, hplace⟩

end Search

end Discover

end NullAccess
