import QuakeVm.Disk.Basic
import QuakeVm.Limits
import QuakeVm.Number.Exact
import QuakeVm.Ownership

/-!
# Open files

A program opens files for reading, for writing at the end, or for writing anew. Reading goes line by
line through a cache: a read fetches up to `Limits.readAhead` bytes, and lines are cut from what has
been fetched.

## Termination

`rawLine` consumes a byte in each step, so what is left of the content, fetched or not, gets shorter
(`remaining_next?`).
-/

namespace QuakeVm

/-- What a file was opened for. -/
inductive FileMode where
  | read
  | append
  | write
  deriving Repr, DecidableEq

namespace FileMode

/-- The mode that a program asks for by a number. -/
def ofSingle? (v : Float32) : Option FileMode :=
  match Number.toInt32 v with
  | 0 => some .read
  | 1 => some .append
  | 2 => some .write
  | _ => none

/-- The name of a mode in messages. -/
def name : FileMode → String
  | .read => "Read"
  | .append => "Append"
  | .write => "Write"

end FileMode

/-! ## Reading through a cache -/

/-- A content that is read in pieces: `piece` says how much a read at an offset gives. -/
structure Source where
  content : Bytes
  piece : Nat → Nat

/-- How far a content has been read: the bytes fetched but not consumed, and how many were fetched. -/
structure Reader where
  unread : Bytes := []
  cursor : Nat := 0
  deriving Repr, DecidableEq

namespace Reader

/-- The size of the piece at an offset: at least one byte and at most a cache. -/
def pieceSize (s : Source) (offset : Nat) : Nat :=
  Nat.max 1 (Nat.min (s.piece offset) Limits.readAhead)

/-- The piece of a content at an offset. -/
def piece (s : Source) (offset : Nat) : Bytes :=
  (s.content.drop offset).take (pieceSize s offset)

/-- The reader with something fetched, if nothing was and there is more. -/
def fetch (s : Source) (r : Reader) : Reader :=
  match r.unread with
  | [] =>
    let p := piece s r.cursor
    ⟨p, r.cursor + p.length⟩
  | _ :: _ => r

/-- The next byte. -/
def next? (s : Source) (r : Reader) : Option (UInt8 × Reader) :=
  match (r.fetch s).unread with
  | [] => none
  | c :: rest => some (c, { r.fetch s with unread := rest })

/-- The number of bytes left to consume of a content of a given size. -/
def remaining (size : Nat) (r : Reader) : Nat := size - r.cursor + r.unread.length

theorem remaining_fetch (s : Source) (r : Reader) :
    (r.fetch s).remaining s.content.length = r.remaining s.content.length := by
  unfold fetch
  split
  · rename_i h
    simp only [remaining, piece, List.length_take, List.length_drop, h, List.length_nil]
    omega
  · rfl

theorem remaining_next? {s : Source} {r r' : Reader} {c : UInt8} (h : r.next? s = some (c, r')) :
    r'.remaining s.content.length < r.remaining s.content.length := by
  have hf := remaining_fetch s r
  unfold next? at h
  split at h
  · simp at h
  · rename_i d rest heq
    simp only [Option.some.injEq, Prod.mk.injEq] at h
    rw [← hf, ← h.2]
    simp only [remaining, heq, List.length_cons]
    omega

/-- The bytes up to the next line feed, which is consumed too. -/
def rawLine (s : Source) (r : Reader) : Bytes × Reader :=
  match _h : r.next? s with
  | none => ([], r.fetch s)
  | some (c, r') =>
    if c == 0x0a then ([], r')
    else
      let line := rawLine s r'
      (c :: line.1, line.2)
termination_by r.remaining s.content.length
decreasing_by exact remaining_next? _h

/-- A line as programs see it: up to the first NUL, and without a carriage return at the end. -/
def lineText (raw : Bytes) : Bytes := Bytes.dropLastIf 0x0d (Bytes.untilNul raw)

/-- The next line. There is none when nothing is left. -/
def line? (s : Source) (r : Reader) : Option Bytes × Reader :=
  match r.next? s with
  | none => (none, r.fetch s)
  | some _ =>
    let line := rawLine s r
    (some (lineText line.1), line.2)

end Reader

/-! ## The table of open files -/

/-- An open file. `size` counts what was there when it was opened and what was written since. -/
structure OpenFile where
  name : String
  place : Place
  mode : FileMode
  reader : Reader := {}
  written : Nat := 0
  size : Nat
  deriving Repr, DecidableEq

/-- Why a file operation is refused. -/
inductive FileRefusal where
  | misuse (operation : String) (handle : Int) (misuse : Misuse)
  | notReadable (name : String)
  | notWritable (name : String)
  deriving Repr, DecidableEq

/-- The text of a refusal. -/
def FileRefusal.message : FileRefusal → String
  | .misuse operation handle m => m.message operation "file handle" handle
  | .notReadable name => s!"fgets: {name} was not opened for reading"
  | .notWritable name => s!"fputs: {name} was opened for reading"

/-- The open files of both programs. -/
abbrev FileTable := OwnedTable OpenFile

namespace FileTable

/-- The file of a handle, for an operation. -/
def find (t : FileTable) (owner : Role) (handle : Int) (operation : String) :
    Except FileRefusal OpenFile :=
  match t.get owner handle with
  | .ok f => .ok f
  | .error m => .error (.misuse operation handle m)

/-- The table with a file, and its handle. A full table grows. -/
def insert (t : FileTable) (owner : Role) (f : OpenFile) : Nat × FileTable :=
  match t.free? with
  | some i => (i, t.put i owner f)
  | none => (t.size, (t.grow Limits.fileGrowth).put t.size owner f)

/-- The table without a file. -/
def close (t : FileTable) (owner : Role) (handle : Int) : Except FileRefusal FileTable :=
  match t.find owner handle "fclose" with
  | .ok _ => .ok (t.erase handle.toNat)
  | .error e => .error e

/-- The next line of a file, where `pieces` says how much a read at an offset gives. -/
def getsBy (pieces : Nat → Nat) (t : FileTable) (d : Disk) (owner : Role) (handle : Int) :
    Except FileRefusal (Option Bytes × FileTable) :=
  match t.find owner handle "fgets" with
  | .error e => .error e
  | .ok f =>
    if f.mode != .read then .error (.notReadable f.name)
    else
      let (line, reader) := f.reader.line? ⟨d.contentAt f.place, pieces⟩
      .ok (line, t.put handle.toNat owner { f with reader })

/-- The next line of a file. A read gives as much as it is asked for, as long as there is more. -/
def gets (t : FileTable) (d : Disk) (owner : Role) (handle : Int) :
    Except FileRefusal (Option Bytes × FileTable) :=
  t.getsBy (fun _ => Limits.readAhead) d owner handle

/-- The offset at which the next bytes are written. -/
def writeOffset (d : Disk) (f : OpenFile) : Nat :=
  if f.mode == .append then (d.contentAt f.place).length else f.written

/-- The table and the disk after bytes were written to a file. -/
def write (t : FileTable) (d : Disk) (owner : Role) (handle : Int) (data : Bytes) (now : Int) :
    Except FileRefusal (FileTable × Disk) :=
  match t.find owner handle "fputs" with
  | .error e => .error e
  | .ok f =>
    if f.mode == .read then .error (.notWritable f.name)
    else
      let f' := { f with written := f.written + data.length, size := f.size + data.length }
      .ok (t.put handle.toNat owner f', d.writeAt f.place (writeOffset d f) data now)

/-- The size of a file. -/
def fileSize (t : FileTable) (owner : Role) (handle : Int) : Except FileRefusal Nat :=
  (t.find owner handle "fsize").map (·.size)

/-- The number of bytes of a file that have not been read. -/
def fileRemaining (t : FileTable) (owner : Role) (handle : Int) : Except FileRefusal Nat :=
  (t.find owner handle "fremaining").map fun f => f.reader.remaining f.size

end FileTable

end QuakeVm
