import QuakeVm.Format.Field
import QuakeVm.Vector

/-!
# Rendering a format string

Items are rendered from left to right. Stars and values without a position take the arguments in
order, a star for the width before one for the precision before the value. Rendering stops once the
output has reached `Limits.text` bytes, and what goes beyond is cut off.

A vector directive is written out as three general directives with the same flags, width and
precision, and that text is rendered over the three components.

Rendering does not fail. It reports what a caller may want to log: which string arguments were
read, and the text of a malformed directive, at which rendering ends.
-/

namespace QuakeVm.Format

/-- The arguments of a format string, each readable at every type. -/
structure Arguments where
  float : Nat → Float32
  int : Nat → Int32
  vector : Nat → Vec3
  string : Nat → Bytes

/-- An argument with a type of its own. -/
inductive Value where
  | float (v : Float32)
  | int (v : Int32)
  | vector (v : Vec3)
  | string (s : Bytes)

/--
Arguments from a list of values. Reading a number at another type takes the same 32 bits, reading a
vector as a number takes its first component, and everything else reads as nothing.
-/
def Arguments.ofValues (vs : List Value) : Arguments where
  float n := match vs[n]? with
    | some (.float v) => v
    | some (.int v) => Float32.ofBits v.toUInt32
    | some (.vector v) => v.x
    | _ => 0
  int n := match vs[n]? with
    | some (.int v) => v
    | some (.float v) => v.toBits.toInt32
    | some (.vector v) => v.x.toBits.toInt32
    | _ => 0
  vector n := match vs[n]? with
    | some (.vector v) => v
    | _ => Vec3.zero
  string n := match vs[n]? with
    | some (.string s) => s
    | _ => []

/-- What rendering reports beside its output. -/
inductive Note where
  | stringRead (position : Nat)
  | malformed (tail : Bytes)
  deriving Repr, DecidableEq

/-- The caution that a note calls for. -/
def Note.caution? : Note → Option String
  | .stringRead _ => none
  | .malformed tail => some s!"sprintf: invalid directive: {Text.lossy tail}"

/-- The value of a count, and the next argument in order. -/
def Count.value (args : Arguments) (next : Nat) : Count → Int × Nat
  | .literal n => (n, next)
  | .star => (Number.toInt32 (args.float next), next + 1)
  | .starAt n => (Number.toInt32 (args.float n), next)

/-- A width within the limit; a negative one also means `-`. -/
def Layout.setWidth (l : Layout) (w : Int) : Layout :=
  { l with
    flags := { l.flags with left := l.flags.left || decide (w < 0) }
    width := some (min w.natAbs Limits.text) }

/-- A precision within the limit; a negative one counts as none. -/
def Layout.setPrecision (l : Layout) (p : Int) : Layout :=
  { l with precision := if p < 0 then none else some (min p.toNat Limits.text) }

/-- The layout of a directive, and the next argument in order. -/
def Directive.layout (d : Directive) (args : Arguments) (next : Nat) : Layout × Nat :=
  let l : Layout := { flags := d.flags }
  let (l, next) := match d.width with
    | none => (l, next)
    | some c => let r := c.value args next; (l.setWidth r.1, r.2)
  match d.precision with
  | none => (l, next)
  | some c => let r := c.value args next; (l.setPrecision r.1, r.2)

/-- The directive for one component of a vector, as text. -/
def Layout.componentText (l : Layout) (upper : Bool) : Bytes :=
  0x25 :: (if l.flags.alt then [0x23] else []) ++ (if l.flags.zero then [0x30] else [])
    ++ (if l.flags.left then [0x2d] else []) ++ (if l.flags.space then [0x20] else [])
    ++ (if l.flags.plus then [0x2b] else [])
    ++ (match l.width with
      | none => []
      | some w => Number.decimal w)
    ++ (match l.precision with
      | none => []
      | some p => 0x2e :: Number.decimal p)
    ++ [if upper then 0x47 else 0x67]

/-- The argument of a numeric conversion as an integer. -/
def integerArgument (args : Arguments) (source : Source) (n : Nat) : Int :=
  match source with
  | .float => Number.toInt64 (args.float n)
  | .int => (args.int n).toInt

/-- The argument of a numeric conversion as an exact value. -/
def exactArgument (args : Arguments) (source : Source) (n : Nat) : Number.Exact :=
  match source with
  | .float => .ofFloat32 (args.float n)
  | .int => .ofInt (args.int n).toInt

/-- The lowest 32 bits of an integer. -/
def word (i : Int) : Nat := (i % 0x100000000).toNat

/--
One value under a layout. `vectors` renders a vector, so that a component directive, which never
holds a vector, can be rendered by the same function.
-/
def convert (vectors : Layout → Bool → Vec3 → Bytes) (l : Layout) (args : Arguments)
    (source : Source) (n : Nat) : Conversion → Bytes
  | .decimal | .integer => l.signed (integerArgument args source n)
  | .octal => l.octal (word (integerArgument args source n))
  | .unsigned => l.unsigned (word (integerArgument args source n))
  | .hex upper => l.hex upper (word (integerArgument args source n))
  | .pointer upper =>
    { l with flags := { l.flags with alt := true } }.hex upper (word (integerArgument args source n))
  | .scientific upper => l.float .scientific upper (exactArgument args source n)
  | .fixed upper => l.float .fixed upper (exactArgument args source n)
  | .general upper => l.float .general upper (exactArgument args source n)
  | .character => l.field [] [(integerArgument args source n % 0x100).toNat.toUInt8] false
  | .string =>
    let s := args.string n
    l.field [] (match l.precision with
      | none => s
      | some p => s.take p) false
  | .vector upper => vectors l upper (args.vector n)

/-- The output of an item, what it reports, and the next argument in order. -/
def Item.render (vectors : Layout → Bool → Vec3 → Bytes) (args : Arguments) (next : Nat) :
    Item → Bytes × List Note × Nat
  | .literal c => ([c], [], next)
  | .percent => ([0x25], [], next)
  | .malformed tail => ([], [.malformed tail], next)
  | .directive d =>
    let (l, next) := d.layout args next
    let (n, next) := match d.position with
      | some n => (n, next)
      | none => (next, next + 1)
    let notes := if d.conversion == .string then [.stringRead n] else []
    (convert vectors l args (d.modifier.getD d.conversion.source) n d.conversion, notes, next)

/-- The output of items after `written` bytes, and what was reported. -/
def renderFrom (vectors : Layout → Bool → Vec3 → Bytes) (args : Arguments) :
    List Item → Nat → Nat → Bytes × List Note
  | [], _, _ => ([], [])
  | item :: rest, next, written =>
    if Limits.text ≤ written then ([], [])
    else
      let (piece, notes, next) := item.render vectors args next
      let more := renderFrom vectors args rest next (written + piece.length)
      (piece ++ more.1, notes ++ more.2)

/-- The output of a format string under a way to render vectors, cut at the limit. -/
def renderWith (vectors : Layout → Bool → Vec3 → Bytes) (format : Bytes) (args : Arguments) :
    Bytes × List Note :=
  let r := renderFrom vectors args (items format) 0 0
  (r.1.take Limits.text, r.2)

/-- A vector: three general directives with spaces between them, over its components. -/
def renderVector (l : Layout) (upper : Bool) (v : Vec3) : Bytes :=
  let d := l.componentText upper
  (renderWith (fun _ _ _ => []) (d ++ 0x20 :: d ++ 0x20 :: d)
    (.ofValues [.float v.x, .float v.y, .float v.z])).1

/-- The output of a format string over its arguments, and what was reported. -/
def render (format : Bytes) (args : Arguments) : Bytes × List Note :=
  renderWith renderVector format args

end QuakeVm.Format
