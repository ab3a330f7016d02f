import NullAccess.Proofs.Command.Reading
import NullAccess.Proofs.Json.Confined
import NullAccess.Proofs.Ledger.Reload

/-!
# Opening a ledger

Whatever stands at its path, a ledger is opened: it is the ledger on file if the file denotes one,
and an empty one otherwise.  This has four exceptions and no others (`load_opens_unless_halted`): a
path that is too long to be asked for, bytes that are no text, and a text with too many brackets or
with too many digits in a row.  The commands that do no more than open it and look change no file,
whichever of these it is.
-/

namespace NullAccess

open NullAccess.Tree

namespace Store

variable {t : Tree} {path : Path} {today : String}

/-- The file at a path denotes a ledger: it is the text of an object whose fields fit. -/
def OnFile (t : Tree) (path : Path) (today : String) (l : Ledger) : Prop :=
  ∃ (s : String) (v : Json), t.read path = .ok s.toUTF8 ∧ Json.parse? s.toList = some v ∧
    Json.record (Ledger.ofFields? today) v = some l

/-- What keeps a ledger from being opened. -/
inductive Halts (t : Tree) (path : Path) : Stop → Prop where
  | tooLong (h : t.locate path = .error .nameTooLong) :
      Halts t path (.file ⟨.nameTooLong, path.text⟩)
  | notText {b : ByteArray} (hread : t.read path = .ok b) (h : ∀ s : String, s.toUTF8 ≠ b) :
      Halts t path .notText
  | tooDeep {s : String} (hread : t.read path = .ok s.toUTF8)
      (h : Json.parseFile s.toList = .error .tooDeep)
      (hexcess : Json.Excess Json.maxNesting s.toList .tooDeep) : Halts t path .tooDeep
  | longNumeral {s : String} (hread : t.read path = .ok s.toUTF8)
      (h : Json.parseFile s.toList = .error .longNumeral)
      (hexcess : Json.Excess Json.maxNesting s.toList .longNumeral) :
      Halts t path (.fault .longNumeral)

/-! ## Each kind of content -/

theorem load_of_tooLong (h : t.locate path = .error .nameTooLong) :
    load t path today = .error (.file ⟨.nameTooLong, path.text⟩) := by
  rw [load, probe_of_tooLong h]

theorem load_of_nothing (h : t.probe path = .ok none) :
    load t path today = .ok (⟨path, .empty today⟩, []) := by
  rw [load, h]

theorem load_of_unreadable {n : Node} {e : FileError} (hprobe : t.probe path = .ok (some n))
    (hread : t.read path = .error e) :
    load t path today = .ok (⟨path, .empty today⟩, [.ledgerUnreadable]) := by
  rw [load, hprobe]
  simp only [hread]

theorem load_of_bytes {b : ByteArray} (hread : t.read path = .ok b)
    (h : ∀ s : String, s.toUTF8 ≠ b) :
    load t path today = .error .notText := by
  rw [load, probe_of_read hread]
  simp only [hread, Text.fromUTF8?_eq_none_iff.mpr h]

/-- A text without excess is parsed to the ledger that it denotes, if it denotes one. -/
theorem parse_of_not_excess {s : List Char}
    (h : ∀ flaw, Json.parseFile s = .error flaw → ¬ Json.Excess Json.maxNesting s flaw) :
    parse today s = .ok ((Json.parse? s).bind (Json.record (Ledger.ofFields? today))) := by
  unfold parse
  obtain ⟨v, hfile, hv⟩ | ⟨hfile, hv⟩ | ⟨flaw, hfile, hexcess⟩ := Json.parseFile_tallies s
  · rw [hfile, hv]
    rfl
  · rw [hfile, hv]
    rfl
  · exact absurd hexcess (h flaw hfile)

theorem halts_of_excess {s : String} {flaw : Json.Flaw} (hread : t.read path = .ok s.toUTF8)
    (hfile : Json.parseFile s.toList = .error flaw)
    (hexcess : Json.Excess Json.maxNesting s.toList flaw) : ∃ stop, Halts t path stop := by
  cases flaw with
  | malformed => cases hexcess
  | tooDeep => exact ⟨_, .tooDeep hread hfile hexcess⟩
  | longNumeral => exact ⟨_, .longNumeral hread hfile hexcess⟩

/-! ## All of them -/

theorem load_of_halts {stop : Stop} (h : Halts t path stop) : load t path today = .error stop := by
  cases h with
  | tooLong h => exact load_of_tooLong h
  | notText hread h => exact load_of_bytes hread h
  | tooDeep hread h _ =>
    rw [load_of_text hread, parse, h]
    rfl
  | longNumeral hread h _ =>
    rw [load_of_text hread, parse, h]
    rfl

theorem not_onFile {l : Ledger} (h : ∀ b, t.read path ≠ .ok b) : ¬ OnFile t path today l :=
  fun ⟨s, _, hread, _⟩ => h s.toUTF8 hread

theorem onFile_iff {s : String} {l : Ledger} (hread : t.read path = .ok s.toUTF8) :
    OnFile t path today l ↔
      (Json.parse? s.toList).bind (Json.record (Ledger.ofFields? today)) = some l := by
  rw [Option.bind_eq_some_iff]
  constructor
  · rintro ⟨s', v, hread', hv, hl⟩
    have hsame : s' = s := Text.toUTF8_inj (Except.ok.inj (hread'.symm.trans hread))
    rw [hsame] at hv
    exact ⟨v, hv, hl⟩
  · rintro ⟨v, hv, hl⟩
    exact ⟨s, v, hread, hv, hl⟩

/-- A ledger that nothing keeps from being opened is the one on file, or empty. -/
theorem load_of_not_halts (today : String) (h : ¬ ∃ stop, Halts t path stop) :
    ∃ s warnings, load t path today = .ok (s, warnings) ∧ s.path = path ∧
      (∀ l, OnFile t path today l → s.data = l) ∧
      ((¬ ∃ l, OnFile t path today l) → s.data = .empty today) := by
  cases content t path with
  | tooLong hlong => exact absurd ⟨_, .tooLong hlong⟩ h
  | bytes hread hb => exact absurd ⟨_, .notText hread hb⟩ h
  | nothing hprobe =>
    have hread : ∀ b, t.read path ≠ .ok b := by
      intro b hb
      rw [probe_of_read hb] at hprobe
      cases hprobe
    exact ⟨_, _, load_of_nothing hprobe, rfl,
      fun _ hl => absurd hl (not_onFile hread), fun _ => rfl⟩
  | unreadable hprobe herror =>
    have hread : ∀ b, t.read path ≠ .ok b := by
      intro b hb
      rw [herror] at hb
      cases hb
    exact ⟨_, _, load_of_unreadable hprobe herror, rfl, fun _ hl => absurd hl (not_onFile hread),
      fun _ => rfl⟩
  | @text s hread =>
    have hparse : parse today s.toList = _ :=
      parse_of_not_excess fun _ hfile hexcess => h (halts_of_excess hread hfile hexcess)
    refine ⟨_, _, by rw [load_of_text hread, hparse]; rfl, ?_⟩
    simp only [onFile_iff hread]
    cases (Json.parse? s.toList).bind (Json.record (Ledger.ofFields? today)) with
    | some data => exact ⟨rfl, fun l hl => Option.some.inj hl, fun hno => absurd ⟨data, rfl⟩ hno⟩
    | none => exact ⟨rfl, nofun, fun _ => rfl⟩

/-- A ledger is opened unless one of four things keeps it from being opened: then the program stops.
What is opened is the ledger on file, and an empty one where the file denotes none or there is no
file.  Commands that only read leave every file as it is, also when they are stopped. -/
theorem load_opens_unless_halted (t : Tree) (path : Path) (today : String) :
    (∀ stop, load t path today = .error stop ↔ Halts t path stop) ∧
      ((¬ ∃ stop, Halts t path stop) →
        ∃ s warnings, load t path today = .ok (s, warnings) ∧ s.path = path ∧
          (∀ l, OnFile t path today l → s.data = l) ∧
          ((¬ ∃ l, OnFile t path today l) → s.data = .empty today)) ∧
      ∀ (e : Environment) (c : Command), c.readsOnly = true → (c.run e).tree = e.tree := by
  refine ⟨fun stop => ⟨fun hload => ?_, load_of_halts⟩, load_of_not_halts today,
    fun e _ hreads => Command.tree_run hreads e⟩
  by_cases h : ∃ stop, Halts t path stop
  · obtain ⟨stop', h'⟩ := h
    have hsame := hload.symm.trans (load_of_halts h')
    cases hsame
    exact h'
  · obtain ⟨s, warnings, hok, -⟩ := load_of_not_halts today h
    rw [hok] at hload
    cases hload

/-- A single byte that is no text keeps a ledger from being opened. -/
theorem load_of_stray_byte :
    load ⟨[(["ledger.json"], .file ⟨#[0xff]⟩)]⟩ (Path.ofText "/ledger.json") "2025-03-04" =
      .error .notText := by
  decide +kernel

end Store

end NullAccess
