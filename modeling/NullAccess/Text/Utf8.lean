/-!
# UTF-8

Bytes are read as UTF-8.  Bytes that are valid denote their text.  Otherwise a lossy reading puts
one replacement character for every maximal stretch that begins a character and does not finish
it, and for every byte that begins none.
-/

namespace NullAccess.Text

/-- A character that was begun: the value read so far, the number of bytes still owed, and the range
of the next one. -/
structure Begun where
  value : Nat
  owed : Nat
  low : Nat
  high : Nat

/-- What a byte is at the beginning of a character. -/
inductive Lead where
  | whole (c : Char)
  | begun (b : Begun)
  | none

def replacement : Char := '\ufffd'

def lead (b : Nat) : Lead :=
  if b < 0x80 then .whole (Char.ofNat b)
  else if b < 0xC2 then .none
  else if b < 0xE0 then .begun ⟨b - 0xC0, 1, 0x80, 0xBF⟩
  else if b == 0xE0 then .begun ⟨0, 2, 0xA0, 0xBF⟩
  else if b == 0xED then .begun ⟨0xD, 2, 0x80, 0x9F⟩
  else if b < 0xF0 then .begun ⟨b - 0xE0, 2, 0x80, 0xBF⟩
  else if b == 0xF0 then .begun ⟨0, 3, 0x90, 0xBF⟩
  else if b < 0xF4 then .begun ⟨b - 0xF0, 3, 0x80, 0xBF⟩
  else if b == 0xF4 then .begun ⟨4, 3, 0x80, 0x8F⟩
  else .none

/-- Reads bytes from inside a character, if one was begun. -/
def decodeFrom : Option Begun → List UInt8 → List Char
  | none, [] => []
  | some _, [] => [replacement]
  | held, b :: r =>
    let fresh (written : List Char) : List Char :=
      match lead b.toNat with
      | .whole c => written ++ c :: decodeFrom none r
      | .begun s => written ++ decodeFrom (some s) r
      | .none => written ++ replacement :: decodeFrom none r
    match held with
    | none => fresh []
    | some s =>
      if s.low ≤ b.toNat ∧ b.toNat ≤ s.high then
        let value := 64 * s.value + (b.toNat - 0x80)
        if s.owed ≤ 1 then Char.ofNat value :: decodeFrom none r
        else decodeFrom (some ⟨value, s.owed - 1, 0x80, 0xBF⟩) r
      else fresh [replacement]

/-- The text of some bytes, with replacement characters where they are not valid. -/
def decodeLossy (bytes : ByteArray) : String :=
  match String.fromUTF8? bytes with
  | some s => s
  | none => String.ofList (decodeFrom none bytes.toList)

theorem fromUTF8?_toUTF8 (s : String) : String.fromUTF8? s.toUTF8 = some s := by
  simp [String.fromUTF8?, String.toUTF8, String.fromUTF8, s.isValidUTF8]

theorem decodeLossy_toUTF8 (s : String) : decodeLossy s.toUTF8 = s := by
  rw [decodeLossy, fromUTF8?_toUTF8]

end NullAccess.Text
