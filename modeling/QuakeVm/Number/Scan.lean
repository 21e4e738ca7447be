import QuakeVm.Bytes
import QuakeVm.Number.Exact

/-!
# Reading numbers

Numbers are read from the front of a byte string, after blanks, and whatever follows the last
character that fits is ignored; a string that starts with no number reads as zero.

A fractional number is accumulated in double precision, digit by digit, and then divided by a power
of ten, so long inputs round the way that order of operations rounds.
-/

namespace QuakeVm.Number

/-- The string after its leading blanks. -/
def skipBlanks (s : Bytes) : Bytes := s.dropWhile Bytes.isBlank

/-- The longest front of `s` that consists of hexadecimal digits, as their values. -/
def hexDigits : Bytes → List Nat
  | [] => []
  | c :: rest =>
    match Bytes.hexValue? c with
    | some d => d :: hexDigits rest
    | none => []

/-- Digits in double precision, most significant first. -/
def accumulate (base : Float) (ds : List Nat) : Float :=
  ds.foldl (fun v d => v * base + Float.ofNat d) 0.0

/-- `r * a ^ n` by repeated squaring, in the order in which the bits of `n` come. -/
def powFrom (a r : Float) (n : Nat) : Float :=
  let r := if n % 2 == 1 then r * a else r
  if n / 2 == 0 then r else powFrom (a * a) r (n / 2)
termination_by n
decreasing_by simp_all; omega

/-- `10 ^ n` in double precision. -/
def tenPower (n : Nat) : Float := powFrom 10.0 1.0 n

/--
The value of decimal digits with at most one point: all digits as one number, divided by a power of
ten for those after the point.
-/
def decimalValue (s : Bytes) : Float :=
  let whole := s.takeWhile Bytes.isDigit
  match s.dropWhile Bytes.isDigit with
  | 0x2e :: rest =>
    let places := rest.takeWhile Bytes.isDigit
    accumulate 10.0 ((whole ++ places).map Bytes.digitValue) / tenPower places.length
  | _ => accumulate 10.0 (whole.map Bytes.digitValue)

/--
The number at the front of a string: an optional minus sign, then `0x` and hexadecimal digits, or
decimal digits with at most one point. There is no exponent and no plus sign.
-/
def scanSingle (s : Bytes) : Float32 :=
  let s := skipBlanks s
  let negative := s.head? == some 0x2d
  let s := if negative then s.drop 1 else s
  let sign : Float := if negative then -1.0 else 1.0
  match s with
  | 0x30 :: x :: rest =>
    if x == 0x78 || x == 0x58 then (accumulate 16.0 (hexDigits rest) * sign).toFloat32
    else (decimalValue s * sign).toFloat32
  | s => (decimalValue s * sign).toFloat32

/-- The integer at the front of a string, with an optional sign, modulo `2 ^ 32`. -/
def scanInt (s : Bytes) : Int32 :=
  let s := skipBlanks s
  match s with
  | 0x2d :: rest => -value rest
  | 0x2b :: rest => value rest
  | s => value s
where
  /-- The leading decimal digits. -/
  value (s : Bytes) : Int32 :=
    (s.takeWhile Bytes.isDigit).foldl
      (fun v c => v * 10 + Int32.ofNat (Bytes.digitValue c)) 0

/-- The hexadecimal number at the front of a string, modulo `2 ^ 32`, without a sign or `0x`. -/
def scanHex (s : Bytes) : Int32 :=
  ((hexDigits (skipBlanks s)).foldl (fun (v : UInt32) d => v <<< 4 ||| UInt32.ofNat d) 0).toInt32

end QuakeVm.Number
