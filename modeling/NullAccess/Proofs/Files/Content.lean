import NullAccess.Files.Tree

/-!
# What stands at a path

A file that is to hold text is read in three steps: it is asked whether something is there, its
bytes are read, and they are taken for UTF-8.  Each step may come to nothing.  `content` lists the
ways in which the three can end, for every reader of such a file.
-/

namespace NullAccess

namespace Text

theorem toUTF8_of_fromUTF8? {bytes : ByteArray} {s : String} (h : String.fromUTF8? bytes = some s) :
    s.toUTF8 = bytes := by
  unfold String.fromUTF8? at h
  split at h
  · cases h
    rfl
  · cases h

theorem fromUTF8?_eq_none_iff {bytes : ByteArray} :
    String.fromUTF8? bytes = none ↔ ∀ s : String, s.toUTF8 ≠ bytes := by
  constructor
  · rintro hnone s rfl
    rw [fromUTF8?_toUTF8] at hnone
    cases hnone
  · intro hall
    cases h : String.fromUTF8? bytes with
    | none => rfl
    | some s => exact absurd (toUTF8_of_fromUTF8? h) (hall s)

theorem toUTF8_inj {s s' : String} (h : s.toUTF8 = s'.toUTF8) : s = s' := by
  have hsome := fromUTF8?_toUTF8 s
  rw [h, fromUTF8?_toUTF8] at hsome
  exact (Option.some.inj hsome).symm

end Text

namespace Tree

variable {t : Tree} {p : Path}

theorem probe_of_read {bytes : ByteArray} (h : t.read p = .ok bytes) :
    t.probe p = .ok (some (.file bytes)) := by
  unfold Tree.read at h
  split at h
  · cases h
  · rename_i l hlocate
    split at h
    · rename_i hfile
      cases h
      rw [probe, hlocate]
      simp only [hfile]
    · cases h
    · cases h

/-- What a reader of text finds at a path. -/
inductive Content (t : Tree) (p : Path) : Prop where
  /-- The path is too long to be asked for. -/
  | tooLong (h : t.locate p = .error .nameTooLong)
  | nothing (h : t.probe p = .ok none)
  | unreadable {n : Node} {e : FileError} (hprobe : t.probe p = .ok (some n))
      (hread : t.read p = .error e)
  | bytes {b : ByteArray} (hread : t.read p = .ok b) (h : ∀ s : String, s.toUTF8 ≠ b)
  | text {s : String} (hread : t.read p = .ok s.toUTF8)

theorem probe_of_tooLong (h : t.locate p = .error .nameTooLong) :
    t.probe p = .error ⟨.nameTooLong, p.text⟩ := by
  rw [probe, h]

theorem locate_of_probe {e : FileError} (h : t.probe p = .error e) :
    t.locate p = .error .nameTooLong := by
  unfold probe at h
  split at h
  · cases h
  · assumption
  · cases h

theorem content (t : Tree) (p : Path) : Content t p := by
  cases hprobe : t.probe p with
  | error e => exact .tooLong (locate_of_probe hprobe)
  | ok found =>
    cases found with
    | none => exact .nothing hprobe
    | some n =>
      cases hread : t.read p with
      | error e => exact .unreadable hprobe hread
      | ok b =>
        cases hb : String.fromUTF8? b with
        | none => exact .bytes hread (Text.fromUTF8?_eq_none_iff.mp hb)
        | some s =>
          rw [← Text.toUTF8_of_fromUTF8? hb] at hread
          exact .text hread

end Tree

end NullAccess
