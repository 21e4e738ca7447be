import QuakeVm.Bytes

/-!
# The 16-bit checksum

A cyclic redundancy check with the polynomial `x^16 + x^12 + x^5 + 1`, most significant bit first,
starting from all ones and without a final change.
-/

namespace QuakeVm.Checksum

/-- One bit of input: a shift, and the polynomial if a bit fell out. -/
def shift (crc : UInt16) : UInt16 :=
  if crc &&& 0x8000 != 0 then (crc <<< 1) ^^^ 0x1021 else crc <<< 1

/-- `n` shifts. -/
def shifts : Nat → UInt16 → UInt16
  | 0, crc => crc
  | n + 1, crc => shifts n (shift crc)

/-- One byte of input. -/
def update (crc : UInt16) (c : UInt8) : UInt16 := shifts 8 (crc ^^^ (c.toUInt16 <<< 8))

/-- The checksum of a byte string. -/
def crc16 (s : Bytes) : UInt16 := s.foldl update 0xffff

end QuakeVm.Checksum
