import QuakeVm.Format.Directive
import QuakeVm.Limits
import QuakeVm.Number.Decimal

/-!
# Fields

How one value is written under given flags, width and precision. A field is a lead (a sign, `0x` or
nothing) and a body; padding goes in front of both, between them as zeros, or after them.

Numbers are written from their exact values, so rounding is that of `Number.fixed` and
`Number.significant`: to nearest, a half to the even neighbour.
-/

namespace QuakeVm.Format

/-- Flags with the width and the precision that a directive ended up with. -/
structure Layout where
  flags : Flags := {}
  width : Option Nat := none
  precision : Option Nat := none
  deriving Repr, DecidableEq

namespace Layout

/-- `lead` and `body` padded to the width; zeros only if `zeros` allows them. -/
def field (l : Layout) (lead body : Bytes) (zeros : Bool) : Bytes :=
  let missing := l.width.getD 0 - (lead.length + body.length)
  if l.flags.left then lead ++ body ++ List.replicate missing 0x20
  else if l.flags.zero && zeros then lead ++ List.replicate missing 0x30 ++ body
  else List.replicate missing 0x20 ++ lead ++ body

/-- The sign in front of a number. -/
def sign (l : Layout) (negative : Bool) : Bytes :=
  if negative then [0x2d]
  else if l.flags.plus then [0x2b]
  else if l.flags.space then [0x20]
  else []

/-- Digits filled up to the precision. With precision zero, zero has no digits. -/
def stretch (l : Layout) (ds : Bytes) (isZero : Bool) : Bytes :=
  match l.precision with
  | none => ds
  | some 0 => if isZero then [] else ds
  | some p => Number.padLeft p 0x30 ds

/-- A signed decimal integer. A precision switches zero padding off. -/
def signed (l : Layout) (v : Int) : Bytes :=
  l.field (l.sign (v < 0)) (l.stretch (Number.decimal v.natAbs) (v == 0)) l.precision.isNone

/-- The octal form; `#` makes it start with a zero. -/
def octal (l : Layout) (v : Nat) : Bytes :=
  let ds := l.stretch (Number.numeral 8 false v) (v == 0)
  let ds := if l.flags.alt && ds.head? != some 0x30 then 0x30 :: ds else ds
  l.field [] ds l.precision.isNone

/-- The unsigned decimal form. -/
def unsigned (l : Layout) (v : Nat) : Bytes :=
  l.field [] (l.stretch (Number.decimal v) (v == 0)) l.precision.isNone

/-- The hexadecimal form; `#` puts `0x` or `0X` in front of a value other than zero. -/
def hex (l : Layout) (upper : Bool) (v : Nat) : Bytes :=
  let lead : Bytes := if l.flags.alt && v != 0 then [0x30, if upper then 0x58 else 0x78] else []
  l.field lead (l.stretch (Number.numeral 16 upper v) (v == 0)) l.precision.isNone

end Layout

/-! ## Floating point -/

/-- Which of the three notations a floating-point conversion uses. -/
inductive Notation where
  | fixed
  | scientific
  | general
  deriving Repr, DecidableEq

/-- `num / den` with a fixed number of places; `#` keeps the point when there are none. -/
def fixedBody (num den places : Nat) (alt : Bool) : Bytes :=
  Number.fixed num den places ++ (if alt && places == 0 then [0x2e] else [])

/-- `e` with its sign and at least two digits. -/
def exponentText (e : Int) : Bytes :=
  0x65 :: (if e < 0 then 0x2d else 0x2b) :: Number.padLeft 2 0x30 (Number.decimal e.natAbs)

/-- A decimal without the zeros at the end of its fraction. -/
def stripZeros (s : Bytes) : Bytes :=
  if s.contains 0x2e then
    ((s.reverse.dropWhile (· == 0x30)).dropWhile (· == 0x2e)).reverse
  else s

/-- The scientific digits of `num / den`; `#` keeps the point when nothing follows it. -/
def scientificDigits (num den places : Nat) (alt : Bool) : Bytes :=
  Number.mantissaText num den places ++ (if alt && places == 0 then [0x2e] else [])

/-- One digit, the point, `places` digits and the exponent. -/
def scientificBody (num den places : Nat) (alt : Bool) : Bytes :=
  scientificDigits num den places alt ++ exponentText (Number.significant num den places).2

/--
`precision` significant digits, as a fixed decimal where the exponent is from `-4` to below the
precision and in scientific form elsewhere. Without `#` the zeros at the end are dropped.
-/
def generalBody (num den precision : Nat) (alt : Bool) : Bytes :=
  let p := max precision 1
  let e := (Number.significant num den (p - 1)).2
  let strip := fun s => if alt then s else stripZeros s
  if e < -4 || (p : Int) ≤ e then
    strip (scientificDigits num den (p - 1) alt)
      ++ exponentText (Number.significant num den (p - 1)).2
  else strip (fixedBody num den (((p : Int) - 1 - e).toNat) alt)

/-- The magnitude of a value. -/
def floatBody (n : Notation) (precision : Nat) (alt : Bool) : Number.Exact → Bytes
  | .nan => Bytes.ofText "nan"
  | .infinite _ => Bytes.ofText "inf"
  | .finite _ m e =>
    let r := Number.Exact.ratio m e
    match n with
    | .fixed => fixedBody r.1 r.2 precision alt
    | .scientific => scientificBody r.1 r.2 precision alt
    | .general => generalBody r.1 r.2 precision alt

/-- Whether a value is finite. -/
def isFinite : Number.Exact → Bool
  | .finite _ _ _ => true
  | _ => false

/-- A floating-point value. Only finite ones are padded with zeros. -/
def Layout.float (l : Layout) (n : Notation) (upper : Bool) (v : Number.Exact) : Bytes :=
  let body := floatBody n (l.precision.getD 6) l.flags.alt v
  l.field (l.sign v.isNegative) (if upper then Bytes.upper body else body) (isFinite v)

end QuakeVm.Format
