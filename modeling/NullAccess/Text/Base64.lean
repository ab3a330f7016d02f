/-!
# Bytes written in sixty-four signs

Each sign carries six bits, so four of them carry three bytes.  Reading is lenient: other characters
are passed over, and a full padding ends the text.
-/

namespace NullAccess.Text.Base64

/-- The six bits of a sign. -/
def value? (c : Char) : Option Nat :=
  if 'A' ≤ c ∧ c ≤ 'Z' then some (c.toNat - 65)
  else if 'a' ≤ c ∧ c ≤ 'z' then some (c.toNat - 71)
  else if '0' ≤ c ∧ c ≤ '9' then some (c.toNat + 4)
  else if c = '+' then some 62
  else if c = '/' then some 63
  else none

/-- What was read of a text: the number of signs in the current group of four, the bits of its last
sign that no byte has taken yet, the pads behind it, and the bytes so far, latest first. -/
structure State where
  signs : Nat := 0
  bits : Nat := 0
  pads : Nat := 0
  bytes : List UInt8 := []

def State.take (s : State) (v : Nat) : State :=
  match s.signs with
  | 0 => { s with signs := 1, bits := v, pads := 0 }
  | 1 => { signs := 2, bits := v % 16, bytes := UInt8.ofNat (s.bits * 4 + v / 16) :: s.bytes }
  | 2 => { signs := 3, bits := v % 4, bytes := UInt8.ofNat (s.bits * 16 + v / 4) :: s.bytes }
  | _ => { signs := 0, bits := 0, bytes := UInt8.ofNat (s.bits * 64 + v) :: s.bytes }

/-- The bytes of a text, behind what was read of it.  A group that is begun has to be completed. -/
def decodeFrom (s : State) : List Char → Option (List UInt8)
  | [] => if s.signs = 0 then some s.bytes.reverse else none
  | c :: r =>
    if c = '=' then
      if 2 ≤ s.signs then
        if 4 ≤ s.signs + s.pads + 1 then some s.bytes.reverse
        else decodeFrom { s with pads := s.pads + 1 } r
      else decodeFrom s r
    else
      match value? c with
      | some v => decodeFrom (s.take v) r
      | none => decodeFrom s r

def decode? (t : List Char) : Option ByteArray :=
  (decodeFrom {} t).map fun bytes => ByteArray.mk bytes.toArray

end NullAccess.Text.Base64
