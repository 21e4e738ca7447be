import QuakeVm.Bytes

/-!
# Positional numerals

The digits of a natural number in a base, most significant first, and their ASCII forms. A numeral
has no leading zero, and zero has one digit.

`digits` ends because a quotient by a base of at least two is smaller than a positive dividend.
-/

namespace QuakeVm.Number

/-- The digits of `n` in base `b`, most significant first. -/
def digits (b n : Nat) : List Nat :=
  if _h : 2 ≤ b ∧ b ≤ n then digits b (n / b) ++ [n % b] else [n]
termination_by n
decreasing_by exact Nat.div_lt_self (by omega) (by omega)

/-- The ASCII form of a digit below sixteen. -/
def digitByte (upper : Bool) (d : Nat) : UInt8 :=
  if d < 10 then (0x30 + d).toUInt8 else ((if upper then 0x41 else 0x61) + (d - 10)).toUInt8

/-- The numeral of `n` in a base up to sixteen. -/
def numeral (b : Nat) (upper : Bool) (n : Nat) : Bytes := (digits b n).map (digitByte upper)

/-- The decimal numeral of `n`. -/
def decimal (n : Nat) : Bytes := numeral 10 false n

/-- The decimal numeral of an integer, with a minus sign in front of a negative one. -/
def signedDecimal (i : Int) : Bytes :=
  if i < 0 then 0x2d :: decimal i.natAbs else decimal i.natAbs

/-- ASCII bytes as text. -/
def asText (s : Bytes) : String := String.ofList (s.map fun b => Char.ofNat b.toNat)

/-- `s` filled up on the left to at least `n` bytes. -/
def padLeft (n : Nat) (c : UInt8) (s : Bytes) : Bytes := List.replicate (n - s.length) c ++ s

end QuakeVm.Number
