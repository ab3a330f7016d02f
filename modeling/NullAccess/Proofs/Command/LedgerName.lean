import NullAccess.Command.Run
import NullAccess.Proofs.Files.Targets
import NullAccess.Proofs.Ledger.Approve

/-!
# The name of an approved file

An approval and a scan name a file by two rules.  They agree on files below the root, in every
spelling.  Outside the root a scan takes the path without `.` and `..`, but an approval takes the
text of the argument, so they agree only if that text is such a path already
(`ledgerName_is_target_iff`).  The root is as a command finds it, without `.` and `..`; a scan would
take them out of it in any case, an approval would not.
-/

namespace NullAccess.Environment

open Discover NullAccess.Path

variable {e : Environment} {root : Path} {c : Config} {arg r : String} {t' : Tree} {s s' : Store}
  {entry : Entry}

/-- A file argument, as a path without `.` and `..`. -/
def resolved (e : Environment) (arg : String) : Path := resolve e.cwd (ofText arg)

/-- The names of an argument lead to a file. -/
structure NamesFile (e : Environment) (arg : String) : Prop where
  noNul : (e.cwd.join (ofText arg)).nul? = none
  leads : ∃ l content, e.tree.follow [] (e.cwd.join (ofText arg)).parts = .ok l ∧
    e.tree.at? l = some (.file content)

/-- The argument is below the root, or it is written without `.` and `..` from the root of the file
system. -/
def NamedAlike (e : Environment) (root : Path) (arg : String) : Prop :=
  (root.below? (e.resolved arg)).isSome = true ∨ arg = (e.resolved arg).text

theorem seen_eq (e : Environment) (root : Path) (c : Config) (arg : String) :
    (e.search root c).seen arg = e.cwd.join (ofText arg) ∨
      (e.search root c).seen arg = e.resolved arg := by
  by_cases h : (ofText arg).absolute = true
  · exact .inl ((if_pos h).trans (join_of_absolute h).symm)
  · exact .inr (if_neg h)

theorem settled_seen (arg : String) : ((e.search root c).seen arg).settled = e.resolved arg := by
  rcases seen_eq e root c arg with hseen | hseen
  · rw [hseen]
    rfl
  · rw [hseen]
    exact settled_settled _

/-- The argument is looked up at the file that its names lead to. -/
theorem NamesFile.seen (h : e.NamesFile arg) (root : Path) (c : Config) :
    ((e.search root c).seen arg).nul? = none ∧
      ∃ l content, e.tree.follow [] ((e.search root c).seen arg).parts = .ok l ∧
        e.tree.at? l = some (.file content) := by
  obtain ⟨l, content, hl, hfile⟩ := h.leads
  rcases seen_eq e root c arg with hseen | hseen
  · rw [hseen]
    exact ⟨h.noNul, l, content, hl, hfile⟩
  · rw [hseen]
    obtain ⟨rfl, hagain⟩ := Tree.follow_collapse hl
    exact ⟨Tree.nul?_of_subset h.noNul (collapse_subset _), _, content, hagain, hfile⟩

theorem NamesFile.given (h : e.NamesFile arg) : (ofText arg).nul? = none := by
  refine Tree.nul?_of_subset h.noNul ?_
  by_cases habsolute : (ofText arg).absolute = true
  · rw [join_of_absolute habsolute]
    exact List.Subset.refl _
  · rw [join_of_relative (by simpa using habsolute)]
    exact List.subset_append_right _ _

theorem projectName_seen (arg : String) :
    projectName root ((e.search root c).seen arg) = projectName root (e.resolved arg) := by
  have hresolved : (e.resolved arg).settled = e.resolved arg := settled_settled _
  rw [projectName, projectName, settled_seen, hresolved]

theorem NamesFile.expand_of_short (h : e.NamesFile arg)
    (hlength : ¬ Tree.maxPath ≤ ((e.search root c).seen arg).text.utf8ByteSize) :
    (e.search root c).expand arg = ([], .ok [projectName root (e.resolved arg)]) := by
  obtain ⟨hnul, l, content, hl, hfile⟩ := h.seen root c
  have hlocate : e.tree.locate ((e.search root c).seen arg) = .ok l :=
    Tree.locate_eq_ok_iff.mpr ⟨hnul, hlength, hl⟩
  have hprobe : (e.search root c).tree.probe ((e.search root c).seen arg) =
      .ok (some (.file content)) := by
    show e.tree.probe ((e.search root c).seen arg) = _
    rw [Tree.probe, hlocate, ← hfile]
  unfold Search.expand
  dsimp only
  rw [h.given, hprobe]
  exact congrArg (fun n => (([], .ok [n]) : List Warning × Except DiscoverError (List String)))
    (projectName_seen arg)

theorem NamesFile.expand_of_long (h : e.NamesFile arg)
    (hlength : Tree.maxPath ≤ ((e.search root c).seen arg).text.utf8ByteSize) :
    ∃ err, (e.search root c).expand arg = ([], .error err) := by
  obtain ⟨hnul, -⟩ := h.seen root c
  have hlocate : e.tree.locate ((e.search root c).seen arg) = .error .nameTooLong := by
    rw [Tree.locate, hnul, if_neg (by simp), if_pos hlength]
  have hprobe : (e.search root c).tree.probe ((e.search root c).seen arg) =
      .error ⟨.nameTooLong, ((e.search root c).seen arg).text⟩ := by
    show e.tree.probe ((e.search root c).seen arg) = _
    rw [Tree.probe, hlocate]
  refine ⟨.unreadable ⟨.nameTooLong, ((e.search root c).seen arg).text⟩, ?_⟩
  unfold Search.expand
  dsimp only
  rw [h.given, hprobe]

/-- The one target that a file argument stands for, unless its path is too long for the system. -/
theorem NamesFile.targets_eq_ok_iff (hcwd : e.cwd.IsSettled)
    (hroot : root = resolve e.cwd (ofText r)) (h : e.NamesFile arg) {names : List String} :
    (e.search root c).targets [arg] = ([], .ok names) ↔
      ¬ Tree.maxPath ≤ ((e.search root c).seen arg).text.utf8ByteSize ∧
        names = [projectName root (e.resolved arg)] := by
  have hrooted : (e.search root c).rooted = e.search root c := Search.rooted_eq hcwd hroot
  rw [Search.targets, hrooted, List.isEmpty_cons, if_neg Bool.false_ne_true, Search.expandAll]
  by_cases hlength : Tree.maxPath ≤ ((e.search root c).seen arg).text.utf8ByteSize
  · obtain ⟨err, herr⟩ := h.expand_of_long hlength
    rw [herr]
    constructor
    · intro hnames
      cases hnames
    · intro hshort
      exact absurd hlength hshort.1
  · rw [h.expand_of_short hlength]
    constructor
    · intro hnames
      cases hnames
      exact ⟨hlength, rfl⟩
    · intro hnames
      rw [hnames.2]
      rfl

/-- The name under which an argument is approved is that of the file exactly if the two rules
agree. -/
theorem ledgerName_eq_projectName_iff :
    e.ledgerName root arg = projectName root (e.resolved arg) ↔ e.NamedAlike root arg := by
  have hresolved : (resolve e.cwd (ofText arg)).settled = resolve e.cwd (ofText arg) :=
    settled_settled _
  unfold ledgerName NamedAlike projectName resolved
  rw [hresolved]
  cases root.below? (resolve e.cwd (ofText arg)) <;> simp

theorem isAt_of_approve {request : Approval.Request} {file : String}
    (h : Approval.approve s e.tree e.today root request = ⟨t', s', .ok entry⟩) :
    entry.isAt file request.line = true ↔ request.file = file := by
  obtain ⟨given, id, hgiven, rfl, -⟩ := Approval.approve_eq_ok h
  obtain ⟨code, dependencies, -, -, rfl⟩ := Approval.entryFor_eq_ok hgiven
  simp [Entry.isAt, Entry.isLine, Entry.unfit?, Json.field?]

/-- An approval knows the file of an argument by the name of the one target that a scan of the
argument has, exactly if the path is not too long and the two rules agree.  Just then the approval
is for the file that the scan reports. -/
theorem ledgerName_is_target_iff (hcwd : e.cwd.IsSettled)
    (hroot : root = resolve e.cwd (ofText r)) (h : e.NamesFile arg) :
    ((e.search root c).targets [arg] = ([], .ok [e.ledgerName root arg]) ↔
      ¬ Tree.maxPath ≤ ((e.search root c).seen arg).text.utf8ByteSize ∧ e.NamedAlike root arg) ∧
    ∀ (s s' : Store) (t' : Tree) (request : Approval.Request) (entry : Entry) (file : String),
      request.file = e.ledgerName root arg →
      Approval.approve s e.tree e.today root request = ⟨t', s', .ok entry⟩ →
      (e.search root c).targets [arg] = ([], .ok [file]) →
        (entry.isAt file request.line = true ↔ e.NamedAlike root arg) := by
  constructor
  · rw [h.targets_eq_ok_iff hcwd hroot, ← ledgerName_eq_projectName_iff]
    simp
  · intro s s' t' request entry file hrequest happroved htarget
    obtain ⟨-, hfile⟩ := (h.targets_eq_ok_iff hcwd hroot).mp htarget
    have hname : file = projectName root (e.resolved arg) := (List.cons.inj hfile).1
    rw [isAt_of_approve happroved, hrequest, hname, ledgerName_eq_projectName_iff]

/-- A project with a file, and a file beside the project. -/
def besideProject : Environment :=
  { tree :=
      ⟨[(["p"], .dir), (["p", "a.js"], .file "x.y;\n".toUTF8),
        (["other.js"], .file "x.y;\n".toUTF8)]⟩,
    cwd := { anchor := .root, parts := ["p"] }, today := "2025-03-04" }

/-- The file of the project is named alike in a roundabout spelling, the other file is not. -/
theorem ledgerName_is_target_iff_sample :
    (besideProject.search besideProject.cwd {}).targets ["../p/./a.js"] =
        ([], .ok [besideProject.ledgerName besideProject.cwd "../p/./a.js"]) ∧
      (besideProject.search besideProject.cwd {}).targets ["../other.js"] ≠
        ([], .ok [besideProject.ledgerName besideProject.cwd "../other.js"]) := by
  have hcwd : besideProject.cwd.IsSettled := ⟨rfl, by decide, by decide⟩
  have hroot : besideProject.cwd = resolve besideProject.cwd (ofText ".") := by decide
  have hinside : besideProject.NamesFile "../p/./a.js" :=
    ⟨by decide +kernel, ["p", "a.js"], _, by decide +kernel, rfl⟩
  have hbeside : besideProject.NamesFile "../other.js" :=
    ⟨by decide +kernel, ["other.js"], _, by decide +kernel, rfl⟩
  have halike : besideProject.NamedAlike besideProject.cwd "../p/./a.js" := by
    rw [NamedAlike]
    decide +kernel
  have hdiffer : ¬ besideProject.NamedAlike besideProject.cwd "../other.js" := by
    rw [NamedAlike]
    decide +kernel
  exact ⟨(ledgerName_is_target_iff hcwd hroot hinside).1.mpr ⟨by decide +kernel, halike⟩,
    fun h => hdiffer ((ledgerName_is_target_iff hcwd hroot hbeside).1.mp h).2⟩

/-- The file beside the project has one name for an approval and another for a scan. -/
theorem file_beside_project_has_two_names :
    (besideProject.tree.read (besideProject.cwd.join (ofText "../other.js"))).isOk = true ∧
      (besideProject.search besideProject.cwd {}).targets ["../other.js"] =
        ([], .ok ["/other.js"]) ∧
      besideProject.ledgerName besideProject.cwd "../other.js" = "../other.js" := by
  decide +kernel

end NullAccess.Environment
