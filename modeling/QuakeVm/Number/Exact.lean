/-!
# Exact values of floating-point words

A finite floating-point word is an integer times a power of two. Every conversion to an integer and
every decimal text is computed from that pair by integer arithmetic, so no rounding happens but the
one a conversion asks for.

Conversions to integers drop the fraction, stop at the ends of the target range, and take a value
that is not a number to zero.
-/

namespace QuakeVm.Number

/-- What a floating-point word stands for; a finite one is `± mantissa * 2 ^ exponent`. -/
inductive Exact where
  | nan
  | infinite (negative : Bool)
  | finite (negative : Bool) (mantissa : Nat) (exponent : Int)
  deriving Repr, DecidableEq

namespace Exact

/-- The value of a word from its sign, exponent and fraction fields, for 23 fraction bits. -/
def ofFields (negative : Bool) (exponent fraction : Nat) : Exact :=
  if exponent == 0xff then
    if fraction == 0 then .infinite negative else .nan
  else if exponent == 0 then .finite negative fraction (-149)
  else .finite negative (fraction + 0x800000) ((exponent : Int) - 150)

/-- The value of a single-precision word. -/
def ofFloat32 (x : Float32) : Exact :=
  let bits := x.toBits.toNat
  ofFields (0x80000000 ≤ bits) (bits / 0x800000 % 0x100) (bits % 0x800000)

/-- An integer as an exact value. -/
def ofInt (i : Int) : Exact := .finite (i < 0) i.natAbs 0

/-- Whether the value carries a minus sign. A value that is not a number carries none. -/
def isNegative : Exact → Bool
  | .nan => false
  | .infinite negative => negative
  | .finite negative _ _ => negative

/-- `m * 2 ^ e` as a fraction of natural numbers. -/
def ratio (m : Nat) (e : Int) : Nat × Nat :=
  if 0 ≤ e then (m <<< e.toNat, 1) else (m, 1 <<< (-e).toNat)

/-- The value without its fraction, kept inside `low` and `high`. -/
def truncate (low high : Int) : Exact → Int
  | .nan => 0
  | .infinite negative => if negative then low else high
  | .finite negative m e =>
    let n : Int := ((ratio m e).1 / (ratio m e).2 : Nat)
    max low (min high (if negative then -n else n))

end Exact

/-- A single as a 32-bit integer. -/
def toInt32 (x : Float32) : Int := (Exact.ofFloat32 x).truncate (-0x80000000) 0x7fffffff

/-- A single as a 64-bit integer. -/
def toInt64 (x : Float32) : Int := (Exact.ofFloat32 x).truncate (-0x8000000000000000) 0x7fffffffffffffff

/-- A single as an unsigned 32-bit integer. -/
def toUnsigned32 (x : Float32) : Nat := ((Exact.ofFloat32 x).truncate 0 0xffffffff).toNat

/-- A single as a size: negative values count as zero. -/
def toSize (x : Float32) : Nat := ((Exact.ofFloat32 x).truncate 0 0xffffffffffffffff).toNat

/-- The single nearest to an integer. -/
def single (i : Int) : Float32 := Float32.ofInt i

/-- Whether a single is a whole number that a 32-bit integer holds. -/
def isWhole (x : Float32) : Bool := x == single (toInt32 x)

/-- The larger of two singles; if one is not a number, the other. -/
def maxSingle (x y : Float32) : Float32 :=
  if x.isNaN then y else if y.isNaN then x else if x < y then y else x

/-- The smaller of two singles; if one is not a number, the other. -/
def minSingle (x y : Float32) : Float32 :=
  if x.isNaN then y else if y.isNaN then x else if y < x then y else x

end QuakeVm.Number
