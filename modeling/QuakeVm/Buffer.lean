import QuakeVm.Bytes
import QuakeVm.Limits
import QuakeVm.Ownership

/-!
# String buffers

A buffer is a list of strings with holes. It never ends in a hole. A program numbers its buffers from
one, so zero names none.
-/

namespace QuakeVm

/-- A list of strings with holes. -/
structure Buffer where
  strings : Array (Option Bytes) := #[]
  deriving Repr, DecidableEq

namespace Buffer

/-- The number of places. -/
def size (b : Buffer) : Nat := b.strings.size

/-- The string at an index, if there is one. -/
def get? (b : Buffer) (i : Int) : Option Bytes :=
  if i < 0 then none else b.strings.getD i.toNat none

/-- The strings without the holes. -/
def live (b : Buffer) : List Bytes := b.strings.toList.filterMap id

/-- The buffer of some strings. -/
def ofList (l : List Bytes) : Buffer := ⟨(l.map some).toArray⟩

/-- The buffer with a string at an index, which must be below `Limits.bufferStrings`. -/
def set? (b : Buffer) (i : Nat) (s : Bytes) : Option Buffer :=
  if Limits.bufferStrings ≤ i then none
  else some
    ⟨(b.strings ++ Array.replicate (i + 1 - b.strings.size) none).setIfInBounds i (some s)⟩

/-- What there is to say about an index that is too high. -/
def tooHigh (operation : String) (i : Nat) : String :=
  s!"{operation}: index {i} is past the {Limits.bufferStrings} string limit"

/-- Where a new string goes: to the end, or into the first hole. -/
def place (b : Buffer) (atEnd : Bool) : Nat :=
  if atEnd then b.size else (b.strings.findIdx? (·.isNone)).getD b.size

/-- The buffer without the string at an index, if the index is in range. -/
def remove? (b : Buffer) (i : Int) : Option Buffer :=
  if i < 0 || b.size ≤ i.toNat then none
  else some ⟨(b.strings.setIfInBounds i.toNat none).popWhile (·.isNone)⟩

/-! ## Sorting -/

/-- The part of a string that counts for sorting: its first `n` bytes, or all if `n` is not
positive. -/
def sortKey (n : Int) (s : Bytes) : Bytes := if 0 < n then s.take n.toNat else s

/-- Whether one string may stand before another. -/
def inOrder (n : Int) (backward : Bool) (x y : Bytes) : Bool :=
  let c := Bytes.cmp (sortKey n x) (sortKey n y)
  if backward then c != .lt else c != .gt

/-- The buffer without holes and sorted. Strings with equal keys keep their order. -/
def sort (b : Buffer) (n : Int) (backward : Bool) : Buffer :=
  ofList (b.live.mergeSort (inOrder n backward))

/-! ## Joining -/

/-- A piece added to an output, as far as there is room, and whether all of it was added. -/
def addPiece (out piece : Bytes) : Bytes × Bool :=
  let room := Limits.text - out.length
  (out ++ piece.take room, piece.length ≤ room)

/-- Strings added to an output, each behind the glue, until one does not fit. -/
def implodeFrom (glue out : Bytes) : List Bytes → Bytes × Bool
  | [] => (out, true)
  | s :: rest =>
    let (out, ok) := addPiece out glue
    if !ok then (out, false)
    else
      let (out, ok) := addPiece out s
      if !ok then (out, false) else implodeFrom glue out rest

/-- The strings joined by a glue, as far as they fit, and whether all of them did. -/
def implode (b : Buffer) (glue : Bytes) : Bytes × Bool :=
  match b.live with
  | [] => ([], true)
  | s :: rest =>
    let (out, ok) := addPiece [] s
    if !ok then (out, false) else implodeFrom glue out rest

/-! ## Files -/

/-- The lines of a text, without the line ends. -/
def lines (text : Bytes) : List Bytes :=
  let text := Bytes.dropLastIf 0x0a text
  if text.isEmpty then [] else (Bytes.split 0x0a text).map (Bytes.dropLastIf 0x0d)

/-- The buffer with strings added at its end until one does not fit; that index is told. -/
def addAll (b : Buffer) : List Bytes → Buffer × Option Nat
  | [] => (b, none)
  | s :: rest =>
    match b.set? b.size s with
    | some b => b.addAll rest
    | none => (b, some b.size)

/-- The strings from an index on, a hole as the empty string; all of them without a count. -/
def range (b : Buffer) (start : Nat) (count? : Option Nat) : List Bytes :=
  let l := (b.strings.toList.drop start).map fun s => s.getD []
  match count? with
  | some n => l.take n
  | none => l

end Buffer

/-- The buffers of both programs. -/
abbrev BufferTable := OwnedTable Buffer

namespace BufferTable

/-- A table without buffers. -/
def new : BufferTable := .empty Limits.buffers

/-- The buffer of a handle, for an operation; the text about a misused handle otherwise. -/
def find (t : BufferTable) (owner : Role) (handle : Int) (operation : String) :
    Except String Buffer :=
  match t.get owner (handle - 1) with
  | .ok b => .ok b
  | .error m => .error (m.message operation "buffer" handle)

/-- The table with another content of a buffer. -/
def replace (t : BufferTable) (owner : Role) (handle : Int) (b : Buffer) : BufferTable :=
  t.put (handle - 1).toNat owner b

/-- The table with a new buffer, and its handle. -/
def create? (t : BufferTable) (owner : Role) : Option (Nat × BufferTable) :=
  match t.free? with
  | some i => some (i + 1, t.put i owner {})
  | none => none

/-- The table without a buffer. -/
def delete (t : BufferTable) (handle : Int) : BufferTable := t.erase (handle - 1).toNat

end BufferTable

end QuakeVm
