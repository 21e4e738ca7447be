import QuakeVm.Program.Basic

/-!
# Program files

A program file is a header of fifteen 32-bit words and six lumps, all little-endian. The header
gives the place and the count of records of each lump.

Reading checks the version and that every lump lies inside the file; lumps may overlap, leave gaps
or come in any order. Writing puts them behind the header, one after the other, in the order of
`Lump`.
-/

namespace QuakeVm

/-- The version of program files. -/
def programVersion : Int32 := 6

namespace Codec

/-! ## Words -/

/-- A 16-bit word as two bytes. -/
def word16 (w : UInt16) : Bytes := [w.toUInt8, (w >>> 8).toUInt8]

/-- A 32-bit word as four bytes. -/
def word32 (w : Int32) : Bytes :=
  let u := w.toUInt32
  [u.toUInt8, (u >>> 8).toUInt8, (u >>> 16).toUInt8, (u >>> 24).toUInt8]

/-- The byte at an index; behind the end, zero. -/
def byteAt (s : Bytes) (i : Nat) : UInt8 := s.getD i 0

/-- The 16-bit word at an index. -/
def word16At (s : Bytes) (i : Nat) : UInt16 :=
  (byteAt s i).toUInt16 ||| (byteAt s (i + 1)).toUInt16 <<< 8

/-- The 32-bit word at an index. -/
def word32At (s : Bytes) (i : Nat) : Int32 :=
  ((byteAt s i).toUInt32 ||| (byteAt s (i + 1)).toUInt32 <<< 8 |||
    (byteAt s (i + 2)).toUInt32 <<< 16 ||| (byteAt s (i + 3)).toUInt32 <<< 24).toInt32

/-! ## Records -/

/-- The size of a record of a lump. -/
def recordSize : Lump → Nat
  | .header => 60
  | .statements => 8
  | .globaldefs => 8
  | .fielddefs => 8
  | .functions => 36
  | .strings => 1
  | .globals => 4

/-- A statement as bytes. -/
def statementBytes (s : Statement) : Bytes := word16 s.op ++ word16 s.a ++ word16 s.b ++ word16 s.c

/-- The statement of a record. -/
def statementOf (s : Bytes) : Statement :=
  ⟨word16At s 0, word16At s 2, word16At s 4, word16At s 6⟩

/-- A definition as bytes. -/
def definitionBytes (d : Definition) : Bytes := word16 d.type ++ word16 d.offset ++ word32 d.name

/-- The definition of a record. -/
def definitionOf (s : Bytes) : Definition := ⟨word16At s 0, word16At s 2, word32At s 4⟩

/-- A function as bytes. -/
def functionBytes (f : Function) : Bytes :=
  word32 f.firstStatement ++ word32 f.parmStart ++ word32 f.locals ++ word32 f.profile
    ++ word32 f.name ++ word32 f.file ++ word32 f.parameters ++ f.parameterSizes.toList

/-- The function of a record. -/
def functionOf (s : Bytes) : Function where
  firstStatement := word32At s 0
  parmStart := word32At s 4
  locals := word32At s 8
  profile := word32At s 12
  name := word32At s 16
  file := word32At s 20
  parameters := word32At s 24
  parameterSizes := .ofFn fun i => byteAt s (28 + i.val)

/-- A header as bytes. -/
def headerBytes (h : Header) : Bytes := h.toList.flatMap word32

/-- The header of a record. -/
def headerOf (s : Bytes) : Header where
  version := word32At s 0
  crc := word32At s 4
  statementsAt := word32At s 8
  statements := word32At s 12
  globaldefsAt := word32At s 16
  globaldefs := word32At s 20
  fielddefsAt := word32At s 24
  fielddefs := word32At s 28
  functionsAt := word32At s 32
  functions := word32At s 36
  stringsAt := word32At s 40
  strings := word32At s 44
  globalsAt := word32At s 48
  globals := word32At s 52
  entityFields := word32At s 56

/-- `n` records of `size` bytes each. -/
def records {α : Type} (f : Bytes → α) (size : Nat) : Nat → Bytes → List α
  | 0, _ => []
  | n + 1, s => f (s.take size) :: records f size n (s.drop size)

/-! ## Reading -/

/-- The bytes of a lump of `count` records at `start`, if the file holds them all. -/
def lump (file : Bytes) (l : Lump) (start count : Int32) : Except Cause Bytes :=
  if start < 0 || count < 0 then .error (.truncated l)
  else
    let size := count.toInt.toNat * recordSize l
    if file.length < start.toInt.toNat + size then .error (.truncated l)
    else .ok ((file.drop start.toInt.toNat).take size)

/-- The records of a lump. -/
def table {α : Type} (file : Bytes) (l : Lump) (f : Bytes → α) (start count : Int32) :
    Except Cause (Array α) :=
  match lump file l start count with
  | .ok s => .ok (records f (recordSize l) count.toInt.toNat s).toArray
  | .error e => .error e

end Codec

namespace Program

open Codec

/-- The program in a file. -/
def ofBytes (file : Bytes) : Except Cause Program := do
  if file.length < recordSize .header then throw (.truncated .header)
  let h := headerOf (file.take (recordSize .header))
  if h.version != programVersion then throw (.badVersion programVersion.toInt h.version.toInt)
  let statements ← table file .statements statementOf h.statementsAt h.statements
  let globaldefs ← table file .globaldefs definitionOf h.globaldefsAt h.globaldefs
  let fielddefs ← table file .fielddefs definitionOf h.fielddefsAt h.fielddefs
  let functions ← table file .functions functionOf h.functionsAt h.functions
  let strings ← lump file .strings h.stringsAt h.strings
  let globals ← table file .globals (word32At · 0) h.globalsAt h.globals
  return { header := h, statements, globaldefs, fielddefs, functions, strings, globals }

/-- The message about what a loaded program holds. -/
def summary (p : Program) : String :=
  s!"loaded progs: {p.statements.size} statements, {p.functions.size} functions, {p.header.globals} globals, {p.header.entityFields} entity fields"

/-! ## Writing -/

/-- The count of records of each lump, in file order. -/
def counts (p : Program) : List (Lump × Nat) :=
  [(.statements, p.statements.size), (.globaldefs, p.globaldefs.size),
    (.fielddefs, p.fielddefs.size), (.functions, p.functions.size), (.strings, p.strings.length),
    (.globals, p.globals.size)]

/-- The place and count of lumps from `start` on, one behind the other. -/
def places (start : Nat) : List (Lump × Nat) → List (Nat × Nat)
  | [] => []
  | (l, n) :: rest => (start, n) :: places (start + n * recordSize l) rest

/-- A size as a header field. -/
def headerWord (n : Nat) : Except Cause Int32 :=
  if n < 0x80000000 then .ok (Int32.ofNat n)
  else .error (.badEncoding "lump too large: out of range integral type conversion attempted")

/-- The header words of the lumps' places. -/
def placeWords : List (Nat × Nat) → Except Cause (List Int32)
  | [] => .ok []
  | (start, n) :: rest => do
    let start ← headerWord start
    let n ← headerWord n
    let words ← placeWords rest
    return start :: n :: words

/-- The lumps of a program, one behind the other. -/
def lumpBytes (p : Program) : Bytes :=
  p.statements.toList.flatMap statementBytes ++ p.globaldefs.toList.flatMap definitionBytes
    ++ p.fielddefs.toList.flatMap definitionBytes ++ p.functions.toList.flatMap functionBytes
    ++ p.strings ++ p.globals.toList.flatMap word32

/-- The file of a program. -/
def toBytes (p : Program) : Except Cause Bytes := do
  let words ← placeWords (places (recordSize .header) p.counts)
  return word32 programVersion ++ word32 p.header.crc ++ words.flatMap word32
    ++ word32 p.header.entityFields ++ p.lumpBytes

end Program

end QuakeVm
