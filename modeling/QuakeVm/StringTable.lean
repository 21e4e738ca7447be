import QuakeVm.Bytes
import QuakeVm.Limits
import QuakeVm.Text.Lossy

/-!
# Strings of a running program

A program names strings by handles, which are integers. Zero is the null string, a positive handle is
an offset into the constant strings of the program, and the handle `-(1 + i)` names entry `i` of a
table. The entries of the table differ in how long they live:

* the first `Limits.tempStrings` are temporary and take turns,
* zoned strings live until the program releases them,
* engine strings live as long as the program, and equal texts share one entry, which an index of the
  texts gives.

Released entries are used again, the last one released first. A bitmap records which entries are
zoned; it grows by 32 bits at a time.

## Termination

`findFrom` drops at least one byte of the constant strings in each step.
-/

namespace QuakeVm

/-- An entry of the table. -/
inductive Known where
  | temp (s : Bytes)
  | zoned (s : Bytes)
  | engine (s : Bytes)
  | free
  deriving Repr, DecidableEq

/-- The text of an entry. -/
def Known.text : Known → Bytes
  | .temp s | .zoned s | .engine s => s
  | .free => []

/-- What a handle names. -/
inductive Handle where
  | null
  | constant (offset : Nat)
  | temp (index : Nat)
  | zoned (index : Nat)
  | engine (index : Nat)
  | dangling (index : Nat)
  deriving Repr, DecidableEq

/-- The name of a kind of handle, with its offset or index. -/
def Handle.describe : Handle → String
  | .null => "Null"
  | .constant i => s!"Constant({i})"
  | .temp i => s!"Temp({i})"
  | .zoned i => s!"Zoned({i})"
  | .engine i => s!"Engine({i})"
  | .dangling i => s!"Dangling({i})"

/-- The strings of a running program. -/
structure StringTable where
  constants : Bytes
  known : Array Known
  released : List Nat
  zone : Array Bool
  nextTemp : Nat
  /-- The entries of the engine strings, by their texts. -/
  shared : List (Bytes × Nat)
  deriving Repr, DecidableEq

namespace StringTable

/-- The table of a program that has just been loaded. -/
def ofConstants (constants : Bytes) : StringTable where
  constants
  known := .replicate Limits.tempStrings (.temp [])
  released := []
  zone := #[]
  nextTemp := 0
  shared := []

/-- The handle of an entry. -/
def handle (index : Nat) : Int := -(1 + index)

/-! ## Reading -/

/-- What a handle names. -/
def decode (t : StringTable) (h : Int) : Handle :=
  if h == 0 then .null
  else if 0 < h then .constant h.toNat
  else
    let i := (-h - 1).toNat
    match t.known[i]? with
    | some (.temp _) => .temp i
    | some (.zoned _) => .zoned i
    | some (.engine _) => .engine i
    | some .free | none => .dangling i

/-- The text of an entry; empty for entries that do not exist. -/
def entryText (t : StringTable) (i : Nat) : Bytes := (t.known.getD i .free).text

/-- The text of a handle. Handles that name nothing read as the empty string. -/
def get (t : StringTable) (h : Int) : Bytes :=
  match t.decode h with
  | .null => []
  | .constant offset => Bytes.untilNul (t.constants.drop offset)
  | .temp i | .zoned i | .engine i => t.entryText i
  | .dangling _ => []

/-- What there is to say about reading a handle that names nothing. -/
def complaint? (t : StringTable) (h : Int) : Option String :=
  match t.decode h with
  | .constant offset =>
    if t.constants.length < offset then some s!"string offset {offset} is out of range" else none
  | .dangling i => some s!"string handle {h} (known #{i}) is dangling"
  | _ => none

/-- Whether a handle names a string. -/
def isValid (t : StringTable) (h : Int) : Bool :=
  match t.decode h with
  | .constant offset => offset < t.constants.length
  | .dangling _ => false
  | _ => true

/-- The part of a text that a temporary string holds. -/
def fit (s : Bytes) : Bytes := (Bytes.untilNul s).take Limits.text

/-- What there is to say about a text that is too long for a temporary string. -/
def cut? (s : Bytes) : Option String :=
  let s := Bytes.untilNul s
  if Limits.text < s.length then
    some s!"temp string of {s.length} bytes truncated to {Limits.text}: {Text.lossy (s.take 32)}..."
  else none

/-- A new temporary string, in the place of the oldest one. -/
def temp (t : StringTable) (s : Bytes) : Int × StringTable :=
  (handle t.nextTemp, { t with
    known := t.known.setIfInBounds t.nextTemp (.temp (fit s))
    nextTemp := (t.nextTemp + 1) % Limits.tempStrings })

/-! ## Lasting strings -/

/-- Room for a new entry: the last one released, or a new one at the end. -/
def allocate (t : StringTable) (entry : Known) : Nat × StringTable :=
  match t.released with
  | i :: rest => (i, { t with known := t.known.setIfInBounds i entry, released := rest })
  | [] => (t.known.size, { t with known := t.known.push entry })

/-- The engine string of a text. -/
def engine (t : StringTable) (s : Bytes) : Int × StringTable :=
  let s := Bytes.untilNul s
  match t.shared.lookup s with
  | some i => (handle i, t)
  | none =>
    let (i, t) := t.allocate (.engine s)
    (handle i, { t with shared := (s, i) :: t.shared })

/-- Whether the bitmap marks an entry as zoned. -/
def isZoned (t : StringTable) (i : Nat) : Bool := t.zone.getD i false

/-- The bitmap with an entry marked; it grows to the next multiple of 32. -/
def mark (zone : Array Bool) (i : Nat) : Array Bool :=
  (zone ++ Array.replicate ((i / 32 + 1) * 32 - zone.size) false).setIfInBounds i true

/-- A new zoned string: texts put together, each up to its first NUL. -/
def zoned (t : StringTable) (parts : List Bytes) : Int × StringTable :=
  let (i, t) := t.allocate (.zoned (parts.flatMap Bytes.untilNul))
  (handle i, { t with zone := mark t.zone i })

/-- The table with a zoned entry released. -/
def release (t : StringTable) (i : Nat) : StringTable :=
  { t with
    zone := t.zone.setIfInBounds i false
    known := t.known.setIfInBounds i .free
    released := i :: t.released }

/-- The table with the string of a handle released, if the handle names a zoned string. -/
def unzone? (t : StringTable) (h : Int) : Option StringTable :=
  match t.decode h with
  | .zoned i => if t.isZoned i then some (t.release i) else none
  | _ => none

/-- What there is to say about releasing a handle that names no zoned string. -/
def notZoned (t : StringTable) (h : Int) : String :=
  s!"strunzone: handle {h} is not a zoned string ({(t.decode h).describe})"

/-- The table with entries `0` to `n - 1` released where they are zoned, the highest first, and their
number. -/
def unzoneBelow (t : StringTable) : Nat → Nat × StringTable
  | 0 => (0, t)
  | n + 1 =>
    if t.isZoned n then
      let (count, t) := ((t.unzone? (handle n)).getD t).unzoneBelow n
      (count + 1, t)
    else t.unzoneBelow n

/-- The table without zoned strings, and how many there were. -/
def unzoneAll (t : StringTable) : Nat × StringTable := t.unzoneBelow t.zone.size

/-- The number of zoned strings. -/
def zonedCount (t : StringTable) : Nat := t.zone.count true

end StringTable

end QuakeVm
