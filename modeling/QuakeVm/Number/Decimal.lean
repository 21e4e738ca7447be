import QuakeVm.Number.Digits
import QuakeVm.Number.Exact

/-!
# Decimal texts of exact values

Three ways to write `num / den` in decimal, each computed on natural numbers:

* `fixed` has a given number of places after the point,
* `scientific` has one digit before the point and a given number after it,
* `shortest` has the fewest digits that still single out the word among its neighbours.

The first two round the exact value, and an exact half goes to the even neighbour. The third takes
the nearest of the shortest candidates, and an exact half goes up.
-/

namespace QuakeVm.Number

/-- `num / den` rounded to the nearest integer, a half to the even one. -/
def roundDiv (num den : Nat) : Nat :=
  let q := num / den
  let r := num % den
  if 2 * r < den then q
  else if den < 2 * r then q + 1
  else if q % 2 == 0 then q else q + 1

/-- `10 ^ g` as a fraction. -/
def tenPow (g : Int) : Nat × Nat :=
  if 0 ≤ g then (Nat.pow 10 g.toNat, 1) else (1, Nat.pow 10 (-g).toNat)

/-- The exponent of the leading decimal digit of a positive `num / den`. -/
def leadingExponent (num den : Nat) : Int :=
  if den ≤ num then (digits 10 (num / den)).length - 1
  else -((digits 10 ((den + num - 1) / num - 1)).length : Int)

/-- A decimal numeral with a point before its last `places` digits. -/
def withPoint (places n : Nat) : Bytes :=
  let ds := padLeft (places + 1) 0x30 (decimal n)
  if places == 0 then ds
  else ds.take (ds.length - places) ++ 0x2e :: ds.drop (ds.length - places)

/-- `num / den` with `places` digits after the point. -/
def fixed (num den places : Nat) : Bytes :=
  withPoint places (roundDiv (num * Nat.pow 10 places) den)

/-- The first `places + 1` significant digits of `num / den` as one number, and their exponent. -/
def significant (num den places : Nat) : Nat × Int :=
  if num == 0 then (0, 0)
  else
    let x := leadingExponent num den
    let scale := tenPow (places - x)
    let n := roundDiv (num * scale.1) (den * scale.2)
    if Nat.pow 10 (places + 1) ≤ n then (n / 10, x + 1) else (n, x)

/-- The digits of the scientific form, with one of them before the point. -/
def mantissaText (num den places : Nat) : Bytes := withPoint places (significant num den places).1

/-! ## The shortest decimal -/

/--
The reals that a single reads as `m * 2 ^ e`, in units of `2 ^ (e - 2)`: from `low` to `high`, with
the ends exactly when `m` is even. Below a power of two the neighbour is only half as far away.
-/
structure Interval where
  low : Nat
  high : Nat
  closed : Bool

/-- The interval around `m * 2 ^ e` among singles. -/
def Interval.around (m : Nat) (e : Int) : Interval where
  low := 4 * m - (if m == 0x800000 && -149 < e then 1 else 2)
  high := 4 * m + 2
  closed := m % 2 == 0

/-- Whether `n * 10 ^ g` lies in an interval of unit `2 ^ u`. -/
def Interval.holds (i : Interval) (u : Int) (n : Nat) (g : Int) : Bool :=
  let unit := Exact.ratio 1 u
  let ten := tenPow g
  let x := n * ten.1 * unit.2
  let low := i.low * unit.1 * ten.2
  let high := i.high * unit.1 * ten.2
  if i.closed then low ≤ x && x ≤ high else low < x && x < high

/--
The decimal `d * 10 ^ g` with the fewest digits that reads back as the single `m * 2 ^ e`, tried
with `count` digits and then with more. Nine digits always suffice.
-/
def shortestFrom (m : Nat) (e : Int) (count : Nat) : Nat × Int :=
  let value := Exact.ratio m e
  let g := leadingExponent value.1 value.2 - (count - 1 : Nat)
  let ten := tenPow g
  let num := value.1 * ten.2
  let den := value.2 * ten.1
  let below := num / den
  let i := Interval.around m e
  let downFits := i.holds (e - 2) below g
  let upFits := i.holds (e - 2) (below + 1) g
  if downFits && !(upFits && den ≤ 2 * (num % den)) then (below, g)
  else if upFits then (below + 1, g)
  else if count < 9 then shortestFrom m e (count + 1)
  else (below, g)
termination_by 9 - count

/-- `d * 10 ^ g` without an exponent and without needless zeros. -/
def positional (d : Nat) (g : Int) : Bytes :=
  if 0 ≤ g then decimal (d * Nat.pow 10 g.toNat)
  else if d % 10 == 0 && 0 < d then positional (d / 10) (g + 1)
  else withPoint (-g).toNat d
termination_by d
decreasing_by
  have : d ≠ 0 := by simp_all; omega
  exact Nat.div_lt_self (by omega) (by omega)

/-- The magnitude of a finite single in the fewest digits that read back. -/
def shortest (m : Nat) (e : Int) : Bytes :=
  if m == 0 then decimal 0
  else
    let r := shortestFrom m e 1
    positional r.1 r.2

/-! ## Texts of singles -/

/-- The minus sign of a negative value. -/
def minus (negative : Bool) : Bytes := if negative then [0x2d] else []

/-- A single in the fewest digits that read back, never with an exponent. -/
def shortestText (x : Float32) : String :=
  match Exact.ofFloat32 x with
  | .nan => "NaN"
  | .infinite negative => asText (minus negative) ++ "inf"
  | .finite negative m e => asText (minus negative ++ shortest m e)

/-- A single with `places` digits after the point, filled up with spaces on the left. -/
def fixedText (width places : Nat) (x : Float32) : String :=
  let body := match Exact.ofFloat32 x with
    | .nan => Bytes.ofText "NaN"
    | .infinite negative => minus negative ++ Bytes.ofText "inf"
    | .finite negative m e =>
      let r := Exact.ratio m e
      minus negative ++ fixed r.1 r.2 places
  asText (padLeft width 0x20 body)

/-- A number as configuration text: whole numbers without a fraction, others in full. -/
def plainText (x : Float32) : String :=
  if isWhole x then asText (signedDecimal (toInt32 x)) else shortestText x

/-- A number as program text: whole numbers without a fraction, others with one place. -/
def shortText (x : Float32) : String :=
  if isWhole x then asText (signedDecimal (toInt32 x)) else fixedText 5 1 x

end QuakeVm.Number
