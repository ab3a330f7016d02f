import NullAccess.Proofs.Ledger.Reload
import NullAccess.Proofs.Ledger.Touch

/-!
# Every write can be read again

A ledger that was read from a file is well kept, and every operation on it leaves it so, whether it
succeeds or fails (`kept_of_reached`).  A well-kept ledger is read back from what is written of it.
So after every operation that wrote, the file holds what is in memory (`load_after_write`).
-/

namespace NullAccess

open Store

variable {s s' : Store} {t t' : Tree} {today : String}

/-! ## Single operations -/

namespace Operation

theorem saved_of_perform {op : Operation} (hs : s.data.WellKept) (hfit : op.Fit)
    (h : op.perform s t today = ⟨t', s', .ok true⟩) : Saved t' s' := by
  obtain ⟨edit, hplan, hwrote⟩ := perform_eq_ok h
  exact saved_of_wrote hwrote (hs.apply (fits_of_plan hs hfit hplan))

end Operation

/-! ## Walks over markers -/

namespace Approval

/-- An error of a write ends a walk. -/
theorem endsSync_of_save {e : LedgerError} (h : s.save t today = ⟨t', s', .error e⟩) :
    endsSync e = true := by
  rcases save_eq_error h with ⟨-, -, -, rfl⟩ | ⟨-, -, ⟨-, -, rfl⟩ | hreplace⟩
  · rfl
  · rfl
  · rcases replaceFile_eq_error hreplace with ⟨-, rfl⟩ | ⟨f, rfl⟩
    · rfl
    · unfold LedgerError.ofWrite
      split <;> rfl

/-- So an operation whose error does not end a walk was refused. -/
theorem eq_of_not_endsSync {op : Operation} {e : LedgerError}
    (h : op.perform s t today = ⟨t', s', .error e⟩) (he : endsSync e = false) :
    t' = t ∧ s' = s := by
  rcases Operation.perform_eq_error h with ⟨-, ht, hs⟩ | ⟨edit, x, -, hsave, -⟩
  · exact ⟨ht, hs⟩
  · rw [endsSync_of_save hsave] at he
    cases he

namespace Progress

variable {p : Progress} {root path : Path} {file : String}

/-- What a walk keeps: the ledger is well kept, and if the walk goes on and has added an entry then
the ledger is on file. -/
structure Sound (path : Path) (r : Progress × Except LedgerError Unit) : Prop where
  kept : r.1.store.Kept path
  saved : r.2 = .ok () → r.1.done.added ≠ [] → Saved r.1.tree r.1.store

theorem sound_readMarker (h : Sound path (p, .ok ())) (line : Int) (m : ConsumerMarker) :
    Sound path (p.readMarker today root file line m) := by
  unfold readMarker
  dsimp only
  split
  · exact ⟨h.kept, fun _ hadded => h.saved rfl hadded⟩
  · split
    · exact ⟨h.kept, fun _ hadded => h.saved rfl hadded⟩
    · generalize Request.mk file line _ _ _ _ = request
      rcases happrove : approve p.store p.tree today root request with ⟨u, x, r⟩
      have hfit : (Operation.approve root request).Fit := trivial
      have hperform : (Operation.approve root request).perform p.store p.tree today =
          ⟨u, x, r.map fun _ => true⟩ := by
        rw [Operation.perform, happrove]
        rfl
      have hkept : x.Kept path := by
        have hleft := Operation.kept_perform h.kept hfit p.tree today
        rwa [hperform] at hleft
      cases r with
      | ok entry =>
        exact ⟨hkept, fun _ _ => Operation.saved_of_perform h.kept.wellKept hfit hperform⟩
      | error e =>
        dsimp only
        split
        · exact ⟨hkept, nofun⟩
        · rename_i hends
          obtain ⟨rfl, rfl⟩ := eq_of_not_endsSync hperform (by simpa using hends)
          exact ⟨h.kept, fun _ hadded => h.saved rfl hadded⟩

theorem sound_readMarkers (h : Sound path (p, .ok ())) (marked : List (Int × ConsumerMarker)) :
    Sound path (p.readMarkers today root file marked) := by
  induction marked generalizing p with
  | nil => exact h
  | cons first rest ih =>
    obtain ⟨line, m⟩ := first
    have hfirst : Sound path (p.readMarker today root file line m) := sound_readMarker h line m
    rw [readMarkers]
    rcases hread : p.readMarker today root file line m with ⟨p', r⟩
    rw [hread] at hfirst
    cases r with
    | ok _ => exact ih hfirst
    | error e => exact hfirst

theorem readFiles_cons (today : String) (root : Path) (p : Progress) (file : String)
    (rest : List String) :
    p.readFiles today root (file :: rest) =
      match readLines p.tree root file with
      | .error e =>
        if endsSync e then (p, .error e)
        else
          readFiles today root
            { p with done := { p.done with errors := p.done.errors ++ [e.message] } } rest
      | .ok lines =>
        match Marker.findAll lines with
        | .error f => (p, .error (.stopped (.fault f)))
        | .ok marked =>
          match p.readMarkers today root file marked with
          | (p', .ok ()) => readFiles today root p' rest
          | (p', .error e) => (p', .error e) := by
  exact rfl

theorem sound_readFiles (h : Sound path (p, .ok ())) (files : List String) :
    Sound path (p.readFiles today root files) := by
  induction files generalizing p with
  | nil => exact h
  | cons file rest ih =>
    rw [readFiles_cons]
    cases readLines p.tree root file with
    | error e =>
      dsimp only
      split
      · exact ⟨h.kept, nofun⟩
      · exact ih ⟨h.kept, h.saved⟩
    | ok lines =>
      dsimp only
      cases Marker.findAll lines with
      | error f => exact ⟨h.kept, nofun⟩
      | ok marked =>
        have hmarkers : Sound path (p.readMarkers today root file marked) :=
          sound_readMarkers h marked
        dsimp only
        rcases hread : p.readMarkers today root file marked with ⟨p', r⟩
        rw [hread] at hmarkers
        cases r with
        | ok _ => exact ih hmarkers
        | error e => exact hmarkers

end Progress

theorem sound_walk {path : Path} (hs : s.Kept path) (t : Tree) (today : String) (root : Path)
    (files : List String) :
    Progress.Sound path (Progress.readFiles today root { tree := t, store := s } files) :=
  Progress.sound_readFiles ⟨hs, fun _ h => absurd rfl h⟩ files

theorem kept_sync {path : Path} (hs : s.Kept path) (t : Tree) (today : String) (root : Path)
    (files : List String) : (sync s t today root files).store.Kept path := by
  have hwalk := sound_walk hs t today root files
  unfold sync
  rcases hread : Progress.readFiles today root { tree := t, store := s } files with ⟨p, r⟩
  rw [hread] at hwalk
  cases r <;> exact hwalk.kept

theorem saved_of_sync {path root : Path} {files : List String} {result : SyncResult}
    (hs : s.Kept path) (h : sync s t today root files = ⟨t', s', .ok result⟩)
    (hadded : result.added ≠ []) : Saved t' s' := by
  have hwalk := sound_walk hs t today root files
  unfold sync at h
  rcases hread : Progress.readFiles today root { tree := t, store := s } files with ⟨p, r⟩
  rw [hread] at hwalk h
  cases r with
  | ok _ =>
    cases h
    exact hwalk.saved rfl hadded
  | error e => cases h

end Approval

/-! ## Validations -/

namespace Store

variable {v v' : Validator}

theorem wellKept_touch {l : Ledger} (h : l.WellKept) (r : ValidationResult) :
    (touch today l r).WellKept := by
  unfold touch
  split
  · refine ⟨fun e he => ?_, h.names⟩
    rcases Ledger.mem_modifyEntry he with ⟨a, ha, rfl⟩ | hmem
    · exact Change.unfit_apply (h.fit a ha) rfl
    · exact h.fit e hmem
  · exact h

theorem wellKept_foldl_touch {l : Ledger} (h : l.WellKept) (results : List ValidationResult) :
    (results.foldl (touch today) l).WellKept := by
  induction results generalizing l with
  | nil => exact h
  | cons r rest ih => exact ih (wellKept_touch h r)

theorem kept_validateAll {path : Path} {r : Except ValidationStop (List ValidationResult)}
    (hs : s.Kept path) (h : s.validateAll t today v true = (t', s', v', r)) : s'.Kept path := by
  rcases validateAll_cases h with ⟨-, -, -, rfl⟩ | ⟨results, -, hend⟩
  · exact hs
  · rcases hend with ⟨-, -, -, rfl⟩ | ⟨-, out, hsave, -⟩
    · exact hs
    · have hsaved := kept_save (s := { s with data := results.foldl (touch today) s.data })
        ⟨hs.path_eq, wellKept_foldl_touch hs.wellKept results⟩ t today
      rwa [hsave] at hsaved

theorem saved_of_validateAll {results : List ValidationResult} (hs : s.data.WellKept)
    (h : s.validateAll t today v true = (t', s', v', .ok results))
    (hchanged : results.foldl (touch today) s.data ≠ s.data) : Saved t' s' := by
  rcases validateAll_cases h with ⟨f, hstop, -⟩ | ⟨found, -, hend⟩
  · cases hstop
  · rcases hend with ⟨hsame, hok, -⟩ | ⟨-, out, hsave, hout⟩
    · cases hok
      exact absurd hsame hchanged
    · cases out with
      | error e => cases hout
      | ok _ =>
        exact saved_of_wrote (save_eq_ok_iff.mp hsave) (wellKept_foldl_touch hs found)

end Store

/-! ## Runs -/

/-- What a program does with an open ledger: an operation, a walk over markers, or a validation that
dates the valid entries. -/
inductive Action where
  | operate (op : Operation)
  | sync (root : Path) (files : List String)
  | touch (v : Validator)

namespace Action

/-- The action as the program performs it; the result says whether it wrote the ledger. -/
def perform (s : Store) (t : Tree) (today : String) : Action → Outcome Bool
  | operate op => op.perform s t today
  | sync root files =>
    (Approval.sync s t today root files).map fun result => !result.added.isEmpty
  | touch v =>
    match s.validateAll t today v true with
    | (t', s', _, .ok results) =>
      ⟨t', s', .ok (decide (results.foldl (Store.touch today) s.data ≠ s.data))⟩
    | (t', s', _, .error (.fault f)) => ⟨t', s', .error (.stopped (.fault f))⟩
    | (t', s', _, .error (.ledger e)) => ⟨t', s', .error e⟩

/-- Whether the values that an action is given fit the fields of an entry. -/
def Fit : Action → Prop
  | operate op => op.Fit
  | _ => True

theorem kept_perform {a : Action} {path : Path} (hs : s.Kept path) (hfit : a.Fit) (t : Tree)
    (today : String) : (a.perform s t today).store.Kept path := by
  cases a with
  | operate op => exact Operation.kept_perform hs hfit t today
  | sync root files => exact Approval.kept_sync hs t today root files
  | touch v =>
    dsimp only [perform]
    rcases hresult : s.validateAll t today v true with ⟨t', s', v', r⟩
    have hvalidated := kept_validateAll hs hresult
    rcases r with ⟨⟨⟩⟩ | _ <;> exact hvalidated

theorem saved_of_perform {a : Action} {path : Path} (hs : s.Kept path) (hfit : a.Fit)
    (h : a.perform s t today = ⟨t', s', .ok true⟩) : Saved t' s' := by
  cases a with
  | operate op => exact Operation.saved_of_perform hs.wellKept hfit h
  | sync root files =>
    dsimp only [perform] at h
    rcases hsync : Approval.sync s t today root files with ⟨u, x, r⟩
    rw [hsync] at h
    cases r with
    | error e => cases h
    | ok result =>
      simp only [Outcome.map, Except.map, Outcome.mk.injEq, Except.ok.injEq, Bool.not_eq_true',
        List.isEmpty_eq_false_iff] at h
      obtain ⟨rfl, rfl, hadded⟩ := h
      exact Approval.saved_of_sync hs hsync hadded
  | touch v =>
    dsimp only [perform] at h
    split at h
    · rename_i hresult
      simp only [Outcome.mk.injEq, Except.ok.injEq, decide_eq_true_eq] at h
      obtain ⟨rfl, rfl, hchanged⟩ := h
      exact saved_of_validateAll hs.wellKept hresult hchanged
    · cases h
    · cases h

end Action

/-- The ledgers that a run on the file at a path comes to: the one that was read there, and what an
action leaves of such a ledger, whether it succeeds or fails.  Between two actions the files may
change in any way. -/
inductive Reached (path : Path) : Store → Prop where
  | load {t : Tree} {day : String} {s : Store} {warnings : List Warning}
      (h : Store.load t path day = .ok (s, warnings)) : Reached path s
  | step {s : Store} {a : Action} (hs : Reached path s) (hfit : a.Fit) (t : Tree) (today : String) :
      Reached path (a.perform s t today).store

theorem kept_of_reached {path : Path} (h : Reached path s) : s.Kept path := by
  induction h with
  | load hload => exact kept_of_load hload
  | step _ hfit t today ih => exact Action.kept_perform ih hfit t today

/-- In every run from a ledger that was read, after every action that wrote the ledger its file is
read, on any day, as a ledger that holds what is in memory, and that states of each category how
many entries there are. -/
theorem load_after_write {path : Path} {a : Action} (hs : Reached path s) (hfit : a.Fit)
    (h : a.perform s t today = ⟨t', s', .ok true⟩) (day : String) :
    ∃ l, Store.load t' path day = .ok ({ s' with data := l }, []) ∧ l.Agrees s'.data ∧
      ∀ c, l.count? c = if s'.data.countOf c = 0 then none else some (s'.data.countOf c : Int) := by
  have hkept := kept_of_reached hs
  have hkept' := Action.kept_perform hkept hfit t today
  rw [h] at hkept'
  rw [← hkept'.path_eq]
  exact Action.saved_of_perform hkept hfit h day

/-- The addition of an entry with characters that are escaped in its file. -/
def quotingAddition : Action :=
  .operate (.add { id := "n-1", file := "a.js", line := 1, approvedCodeSnapshot := "x[\"y\\n\"];",
                   reason := "one\n\ttwo\x01", approvedDate := "2025-03-04",
                   dependencies := [⟨"b.js", "f", -1, "\r\n"⟩] })

theorem load_after_write_sample :
    ∃ s t' s' l, Store.load ⟨[(["p"], .dir)]⟩ { anchor := .root, parts := ["p", "l.json"] }
        "2025-03-04" = .ok (s, []) ∧
      quotingAddition.perform s ⟨[(["p"], .dir)]⟩ "2025-03-05" = ⟨t', s', .ok true⟩ ∧
      Store.load t' { anchor := .root, parts := ["p", "l.json"] } "2025-03-06" =
        .ok ({ s' with data := l }, []) ∧
      l.entries = s'.data.entries ∧ l.count? nullAccessCategory = some 1 := by
  have hload : Store.load ⟨[(["p"], .dir)]⟩ { anchor := .root, parts := ["p", "l.json"] }
      "2025-03-04" = .ok (Operation.emptyLedger "l.json", []) := by
    decide +kernel
  have hok : (quotingAddition.perform (Operation.emptyLedger "l.json") ⟨[(["p"], .dir)]⟩
      "2025-03-05").result = .ok true := by
    decide +kernel
  have hone : (quotingAddition.perform (Operation.emptyLedger "l.json") ⟨[(["p"], .dir)]⟩
      "2025-03-05").store.data.countOf nullAccessCategory = 1 := by
    decide +kernel
  rcases h : quotingAddition.perform (Operation.emptyLedger "l.json") ⟨[(["p"], .dir)]⟩
    "2025-03-05" with ⟨t', s', r⟩
  rw [h] at hok hone
  obtain rfl : r = _ := hok
  obtain ⟨l, hagain, hagrees, hcounts⟩ :=
    load_after_write (.load hload) (a := quotingAddition) rfl h "2025-03-06"
  refine ⟨_, t', s', l, hload, h, hagain, hagrees.entries, ?_⟩
  rw [hcounts, hone]
  rfl

end NullAccess
