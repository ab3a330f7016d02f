import NullAccess.Command.Run

/-!
# Commands that only read

Most commands open a ledger, and some of them write it.  The others leave every file as it is,
whatever the files hold and also when a file stops them (`Command.tree_run`).  The steps that
commands share pass on what the rest of the command does to the files.
-/

namespace NullAccess

/-- A command that lists, searches or judges, or a scan that only prints its report. -/
def Command.readsOnly : Command → Bool
  | .version | .listEntries .. | .listFrameworks .. | .detectFramework .. => true
  | .scan _ o => (o.output.filter (!·.isEmpty)).isNone
  | .validateEntries _ touch _ _ => !touch
  | _ => false

theorem Ran.tree_refused (t : Tree) (err : LedgerError) : (refused t err).tree = t := by
  cases err <;> rfl

namespace Environment

variable {e : Environment} {root : Path} {c : Config}

theorem tree_withRoot {next : Path → Ran} (h : ∀ root, (next root).tree = e.tree)
    (target : Target) : (e.withRoot target next).tree = e.tree := by
  unfold withRoot
  dsimp only
  split
  · rfl
  · rfl
  · exact h _
  · rfl

theorem tree_withConfig {next : Config → Ran} (h : ∀ c, (next c).tree = e.tree)
    (overrides : List (String × Json)) : (e.withConfig root overrides next).tree = e.tree := by
  unfold withConfig
  split
  · rfl
  · exact h _

theorem tree_withLedger {next : Store → Ran} (h : ∀ s, (next s).tree = e.tree) (path : Path) :
    (e.withLedger path next).tree = e.tree := by
  unfold withLedger
  split
  · rfl
  · exact h _

theorem tree_withProject {next : Path → Config → Store → Ran}
    (h : ∀ root c s, (next root c s).tree = e.tree) (target : Target) :
    (e.withProject target next).tree = e.tree :=
  tree_withRoot (fun root => tree_withConfig (fun c => tree_withLedger (h root c) _) _) target

theorem tree_withFiles {next : List String → Ran} (h : ∀ files, (next files).tree = e.tree)
    (paths : List String) : (e.withFiles root c paths next).tree = e.tree := by
  unfold withFiles
  split
  · rfl
  · exact h _

theorem tree_withUsage {next : Framework.Usage → Ran} (h : ∀ usage, (next usage).tree = e.tree)
    (signatures : List (List String)) (files : List String) :
    (e.withUsage root signatures files next).tree = e.tree := by
  unfold withUsage
  split
  · rfl
  · exact h _

/-- A scan without a file for its report changes nothing. -/
theorem tree_scan {o : ScanOptions} (h : (o.output.filter (!·.isEmpty)).isNone = true)
    (target : Target) : (e.scan target o).tree = e.tree := by
  rw [Option.isNone_iff_eq_none] at h
  refine tree_withRoot (fun root => tree_withConfig (fun c => ?_) _) target
  refine tree_withFiles (fun files => tree_withLedger (fun s => ?_) _) _
  dsimp only
  split
  · rfl
  · rw [h]
    rfl

theorem tree_validateAll (s : Store) (t : Tree) (today : String) (v : Validator) :
    (s.validateAll t today v false).1 = t := by
  unfold Store.validateAll
  split
  · rfl
  · simp

theorem tree_validateEntries (target : Target) (json : Bool) (enforceMarkers : Option Bool) :
    (e.validateEntries target false json enforceMarkers).tree = e.tree := by
  refine tree_withRoot (fun root => tree_withConfig (fun c => tree_withLedger (fun s => ?_) _) _)
    target
  have htree := tree_validateAll s e.tree e.today { root, enforce := c.enforceMarkers }
  dsimp only
  split <;> rename_i hresult <;> rw [hresult] at htree
  · exact htree
  · exact (Ran.tree_refused _ _).trans htree
  · exact htree

theorem tree_detectFramework (target : Target) (name : String) (paths : List String) :
    (e.detectFramework target name paths).tree = e.tree := by
  unfold detectFramework
  split
  · rfl
  · refine tree_withProject (fun root c s => ?_) target
    exact tree_withFiles (fun files => tree_withUsage (fun usage => rfl) _ files) paths

theorem tree_listEntries (target : Target) (json : Bool) :
    (e.listEntries target json).tree = e.tree := by
  unfold listEntries
  exact tree_withProject (fun _ _ _ => rfl) target

theorem tree_listFrameworks (target : Target) : (e.listFrameworks target).tree = e.tree := by
  unfold listFrameworks
  exact tree_withProject (fun _ _ _ => rfl) target

end Environment

/-- A command that only reads leaves every file as it is. -/
theorem Command.tree_run {c : Command} (h : c.readsOnly = true) (e : Environment) :
    (c.run e).tree = e.tree := by
  cases c with
  | version => rfl
  | scan target o => exact Environment.tree_scan h target
  | listEntries target json => exact Environment.tree_listEntries target json
  | listFrameworks target => exact Environment.tree_listFrameworks target
  | detectFramework target name paths => exact Environment.tree_detectFramework target name paths
  | validateEntries target touch json enforceMarkers =>
    cases touch with
    | true => cases h
    | false => exact Environment.tree_validateEntries target json enforceMarkers
  | addEntry | removeEntry | reapproveEntry | syncMarkers | enableFramework | disableFramework
  | removeFramework => cases h

end NullAccess
