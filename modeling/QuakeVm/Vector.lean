import QuakeVm.Number.Decimal
import QuakeVm.Number.Scan
import QuakeVm.Text.Blank
import QuakeVm.Text.Lossy

/-!
# Vectors

Three singles. Sums and products are taken in the written order, each rounded to single precision.
Directions turn into angles of whole degrees.
-/

namespace QuakeVm

/-- A vector of three singles. -/
structure Vec3 where
  x : Float32
  y : Float32
  z : Float32

namespace Vec3

/-- The null vector. -/
def zero : Vec3 := ⟨0, 0, 0⟩

/-- Componentwise sum. -/
def add (v w : Vec3) : Vec3 := ⟨v.x + w.x, v.y + w.y, v.z + w.z⟩

/-- Componentwise difference. -/
def sub (v w : Vec3) : Vec3 := ⟨v.x - w.x, v.y - w.y, v.z - w.z⟩

/-- Every component times `f`. -/
def scale (v : Vec3) (f : Float32) : Vec3 := ⟨v.x * f, v.y * f, v.z * f⟩

/-- The inner product, summed from the left. -/
def dot (v w : Vec3) : Float32 := v.x * w.x + v.y * w.y + v.z * w.z

/-- Equality of all components as numbers: the two zeros are equal, and NaN equals nothing. -/
def sameAs (v w : Vec3) : Bool := v.x == w.x && v.y == w.y && v.z == w.z

/-- The Euclidean length. -/
def length (v : Vec3) : Float32 := (v.dot v).sqrt

/-- The vector of length one in the same direction, or zero where there is none. -/
def normalize (v : Vec3) : Vec3 :=
  let r := 1 / v.length
  if r.isFinite && 0 < r then v.scale r else zero

/-! ## Angles -/

/-- Degrees in a radian. -/
def degreesPerRadian : Float := 180.0 / 3.14159265358979323846264338327950288

/-- The value without its fraction. -/
def dropFraction (x : Float) : Float := if x < 0.0 then x.ceil else x.floor

/--
The angle of the point `(x, y)` in whole degrees from 0 up to 360. The fraction is dropped, but a
value within rounding noise of a whole number counts as that number.
-/
def wholeDegrees (y x : Float32) : Float32 :=
  let degrees := Float.atan2 y.toFloat x.toFloat * degreesPerRadian
  let whole :=
    if (degrees - degrees.round).abs < 1e-4 then degrees.round else dropFraction degrees
  (if whole < 0.0 then whole + 360.0 else whole).toFloat32

/-- The compass direction of a vector, zero for a vertical one. -/
def yaw (v : Vec3) : Float32 := if v.x == 0 && v.y == 0 then 0 else wholeDegrees v.y v.x

/-- Pitch, yaw and roll of a direction. -/
def angles (v : Vec3) : Vec3 :=
  if v.x == 0 && v.y == 0 then ⟨if 0 < v.z then 90 else 270, 0, 0⟩
  else ⟨wholeDegrees v.z (v.x * v.x + v.y * v.y).sqrt, v.yaw, 0⟩

/-! ## Texts -/

/-- `'x y z'` with one place each. -/
def text (v : Vec3) : String :=
  "'" ++ Number.fixedText 5 1 v.x ++ " " ++ Number.fixedText 5 1 v.y ++ " "
    ++ Number.fixedText 5 1 v.z ++ "'"

/-- The vector whose components are the first three of a list, the missing ones zero. -/
def ofList (l : List Float32) : Vec3 := ⟨l.getD 0 0, l.getD 1 0, l.getD 2 0⟩

/-- The numbers between blanks; further ones are ignored. -/
def ofWords (s : String) : Vec3 :=
  ofList ((Text.words Text.isBlank s).map fun w => Number.scanSingle (Bytes.ofText w))

/-- Like `ofWords`, with single quotes counting as blanks. -/
def scan (s : Bytes) : Vec3 :=
  ofList ((Text.words (fun c => Text.isBlank c || c == '\'') (Text.lossy s)).map fun w =>
    Number.scanSingle (Bytes.ofText w))

end Vec3

end QuakeVm
