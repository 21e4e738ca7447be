import QuakeVm.Bytes
import QuakeVm.Number.Digits

/-!
# Percent encoding

Letters, digits and `!*().-_~` stand for themselves; every other byte is `%` and two upper-case
hexadecimal digits. Reading takes digits of either case, and a `%` without two digits stands for
itself.
-/

namespace QuakeVm.Uri

/-- Whether a byte is written as itself. -/
def isUnreserved (c : UInt8) : Bool :=
  Bytes.isAlpha c || Bytes.isDigit c || [0x21, 0x2a, 0x28, 0x29, 0x2e, 0x2d, 0x5f, 0x7e].contains c

/-- One byte as text. -/
def escapeByte (c : UInt8) : Bytes :=
  if isUnreserved c then [c]
  else [0x25, Number.digitByte true (c.toNat / 16), Number.digitByte true (c.toNat % 16)]

/-- The percent-encoded form. -/
def escape (s : Bytes) : Bytes := s.flatMap escapeByte

/-- The byte that two hexadecimal digits spell. -/
def hexPair? (high low : UInt8) : Option UInt8 :=
  match Bytes.hexValue? high, Bytes.hexValue? low with
  | some a, some b => some (a * 16 + b).toUInt8
  | _, _ => none

/-- The bytes that a percent-encoded string stands for. -/
def unescape : Bytes → Bytes
  | [] => []
  | [c] => [c]
  | [c, d] => [c, d]
  | c :: high :: low :: rest =>
    if c == 0x25 then
      match hexPair? high low with
      | some b => b :: unescape rest
      | none => c :: unescape (high :: low :: rest)
    else c :: unescape (high :: low :: rest)

end QuakeVm.Uri
