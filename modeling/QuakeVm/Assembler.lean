import QuakeVm.Opcode
import QuakeVm.Program.Basic
import QuakeVm.Registers
import QuakeVm.Vector

/-!
# Assembling programs

An assembler collects statements, functions, globals, fields and strings and lays them out the way
a compiler does: string 0 is empty, function 0 is the null function, the globals begin with the
return and parameter registers, and the system globals follow.

Jumps name labels. A label can be marked before or after the jumps that use it; `build` fills in the
distances and fails at the first jump whose label was never marked.
-/

namespace QuakeVm

/-- A place in the code that jumps can name. -/
structure Label where
  id : Nat
  text : String
  deriving Repr, DecidableEq

/-- The operand of a jump that holds the distance. -/
inductive JumpOperand where
  | a
  | b
  deriving Repr, DecidableEq

/-- A jump that waits for its distance. -/
structure Jump where
  statement : Nat
  operand : JumpOperand
  label : Label
  deriving Repr, DecidableEq

/-- How an assembler can be misused. -/
inductive AssemblyError where
  | nestedFunction
  | tooManyParameters
  | noFunction
  deriving Repr, DecidableEq

/-- A program in the making. -/
structure Assembler where
  statements : Array Statement := #[]
  globaldefs : Array Definition := #[]
  fielddefs : Array Definition := #[]
  functions : Array Function := #[]
  strings : Bytes := []
  interned : List (String × Int32) := []
  globals : Array Int32 := #[]
  entityFields : Nat := 0
  labels : Nat := 0
  marks : List (Nat × Nat) := []
  jumps : Array Jump := #[]
  current : Option Nat := none

namespace Assembler

/-! ## Data -/

/-- The offset of a constant string; equal texts share one. -/
def string (b : Assembler) (s : String) : Int32 × Assembler :=
  if s.isEmpty then (0, b)
  else
    match b.interned.lookup s with
    | some offset => (offset, b)
    | none =>
      let offset := Int32.ofNat b.strings.length
      (offset, { b with
        strings := b.strings ++ Bytes.ofText s ++ [0]
        interned := (s, offset) :: b.interned })

/-- New globals with given contents. -/
def allocate (b : Assembler) (words : List Int32) : UInt16 × Assembler :=
  (b.globals.size.toUInt16, { b with globals := b.globals ++ words.toArray })

/-- New globals with a definition; an empty name means none. -/
def global (b : Assembler) (name : String) (type : ValueType) (words : List Int32) :
    UInt16 × Assembler :=
  let (offset, b) := b.allocate words
  if name.isEmpty then (offset, b)
  else
    let (s, b) := b.string name
    (offset, { b with
      globaldefs := b.globaldefs.push { type := type.code ||| savedBit, offset, name := s } })

/-- The bits of a single as a word. -/
def floatWord (v : Float32) : Int32 := v.toBits.toInt32

/-- A named float. -/
def globalFloat (b : Assembler) (name : String) (v : Float32) : UInt16 × Assembler :=
  b.global name .float [floatWord v]

/-- Definitions for the three components of a named vector. -/
def components (b : Assembler) (name : String) (offset : UInt16) : List (String × UInt16) → Assembler
  | [] => b
  | (suffix, i) :: rest =>
    let (s, b) := b.string (name ++ suffix)
    components { b with
      globaldefs := b.globaldefs.push
        { type := ValueType.float.code, offset := offset + i, name := s } } name offset rest

/-- A named vector, with its components. -/
def globalVector (b : Assembler) (name : String) (v : Vec3) : UInt16 × Assembler :=
  let (offset, b) := b.global name .vector [floatWord v.x, floatWord v.y, floatWord v.z]
  if name.isEmpty then (offset, b)
  else (offset, b.components name offset [("_x", 0), ("_y", 1), ("_z", 2)])

/-- A named string. -/
def globalString (b : Assembler) (name : String) (v : String) : UInt16 × Assembler :=
  let (s, b) := b.string v
  b.global name .string [s]

/-- A named entity. -/
def globalEntity (b : Assembler) (name : String) : UInt16 × Assembler := b.global name .entity [0]

/-- A named function reference. -/
def globalFunction (b : Assembler) (name : String) (f : Int32) : UInt16 × Assembler :=
  b.global name .function [f]

/-- Storage inside the current function. -/
def localStorage (b : Assembler) (type : ValueType) : UInt16 × Assembler :=
  b.global "" type (List.replicate type.size 0)

/-- A field of entities, and a global that holds its offset. -/
def field (b : Assembler) (name : String) (type : ValueType) : UInt16 × Assembler :=
  let offset := b.entityFields
  let (s, b) := { b with entityFields := b.entityFields + type.size }.string name
  { b with
    fielddefs := b.fielddefs.push { type := type.code, offset := offset.toUInt16, name := s } }.global
      name .field [Int32.ofNat offset]

/-! ## Functions -/

/-- A builtin function. Number zero is bound by name when the program is loaded. -/
def builtin (b : Assembler) (name : String) (number : Int32) : Int32 × Assembler :=
  let (s, b) := b.string name
  let f := Int32.ofNat b.functions.size
  let b := { b with functions := b.functions.push { firstStatement := -number, name := s } }
  (f, (b.globalFunction name f).2)

/-- Storage for parameters, one behind the other. -/
def parameters (b : Assembler) : List ValueType → List UInt16 × Assembler
  | [] => ([], b)
  | t :: rest =>
    let (offset, b) := b.localStorage t
    let (offsets, b) := parameters b rest
    (offset :: offsets, b)

/-- The source file of assembled functions. -/
def sourceFile : String := "qcasm"

/-- Begin a function: its number, and the globals of its parameters. -/
def begin (b : Assembler) (name : String) (types : List ValueType) :
    Except AssemblyError (Int32 × List UInt16 × Assembler) :=
  if b.current.isSome then .error .nestedFunction
  else if 8 < types.length then .error .tooManyParameters
  else
    let (s, b) := b.string name
    let (file, b) := b.string sourceFile
    let f := b.functions.size
    let b := (b.globalFunction name (Int32.ofNat f)).2
    let start := b.globals.size
    let (offsets, b) := b.parameters types
    .ok (Int32.ofNat f, offsets, { b with
      functions := b.functions.push
        { firstStatement := Int32.ofNat b.statements.size
          parmStart := Int32.ofNat start
          name := s
          file
          parameters := Int32.ofNat types.length
          parameterSizes := .ofFn fun i => ((types[i.val]?.map ValueType.size).getD 0).toUInt8 }
      current := some f })

/-- End the current function: its window takes everything allocated since it began. -/
def finish (b : Assembler) : Except AssemblyError Assembler :=
  match b.current with
  | none => .error .noFunction
  | some f =>
    .ok { b with
      functions := b.functions.modify f fun g =>
        { g with locals := Int32.ofNat b.globals.size - g.parmStart }
      current := none }

/-! ## Statements -/

/-- One more statement. -/
def op (b : Assembler) (code : Opcode) (x y z : UInt16) : Assembler :=
  { b with statements := b.statements.push ⟨code.number, x, y, z⟩ }

/-- The store that moves a value of a type. -/
def storeFor : ValueType → Opcode
  | .vector => .storeV
  | .string => .storeS
  | .entity => .storeEnt
  | .function => .storeFnc
  | .field => .storeFld
  | _ => .storeF

/-- Stores of arguments into the parameter registers from register `n` on. -/
def arguments (b : Assembler) (n : Nat) : List (UInt16 × ValueType) → Assembler
  | [] => b
  | (offset, type) :: rest =>
    (b.op (storeFor type) offset (parameter n).toUInt16 0).arguments (n + 1) rest

/-- A call of the function that a global holds. -/
def call (b : Assembler) (f : UInt16) (args : List (UInt16 × ValueType)) : Assembler :=
  (b.arguments 0 args).op (.call args.length) f 0 0

/-! ## Labels -/

/-- A new label. -/
def label (b : Assembler) (text : String) : Label × Assembler :=
  (⟨b.labels, text⟩, { b with labels := b.labels + 1 })

/-- Mark the next statement with a label. A later mark replaces an earlier one. -/
def mark (b : Assembler) (l : Label) : Assembler :=
  { b with marks := (l.id, b.statements.size) :: b.marks }

/-- A jump to a label. -/
def goto (b : Assembler) (l : Label) : Assembler :=
  let i := b.statements.size
  { b.op .goto 0 0 0 with jumps := b.jumps.push ⟨i, .a, l⟩ }

/-- A conditional jump to a label. -/
def branch (b : Assembler) (code : Opcode) (condition : UInt16) (l : Label) : Assembler :=
  let i := b.statements.size
  { b.op code condition 0 0 with jumps := b.jumps.push ⟨i, .b, l⟩ }

/-- The distance of a jump, modulo `2 ^ 16`. -/
def distance (source target : Nat) : UInt16 :=
  ((((target : Int) - source) % 0x10000).toNat).toUInt16

/-- A statement with the distance of its jump filled in. -/
def setDistance (d : UInt16) : JumpOperand → Statement → Statement
  | .a, s => { s with a := d }
  | .b, s => { s with b := d }

/-- The statements with the distances of jumps filled in. -/
def link (marks : List (Nat × Nat)) (statements : Array Statement) :
    List Jump → Except Cause (Array Statement)
  | [] => .ok statements
  | j :: rest =>
    match marks.lookup j.label.id with
    | none => .error (.unmarkedLabel s!"{j.label.text}#{j.label.id}" j.statement)
    | some target =>
      link marks
        (statements.modify j.statement (setDistance (distance j.statement target) j.operand)) rest

/-! ## Beginning and end -/

/-- The assembler of an empty program. -/
def new : Assembler :=
  let b : Assembler :=
    { strings := [0]
      globals := .replicate reservedRegisters 0
      statements := #[{}]
      functions := #[{}]
      globaldefs := #[{}] }
  let b := (b.globalEntity "self").2
  let b := (b.globalEntity "other").2
  let b := (b.globalEntity "world").2
  (b.globalFloat "time" 0).2

/-- The assembled program. -/
def build (b : Assembler) : Except Cause Program :=
  match link b.marks b.statements b.jumps.toList with
  | .error e => .error e
  | .ok statements =>
    .ok
      { header :=
          { version := 6
            entityFields := Int32.ofNat b.entityFields
            globals := Int32.ofNat b.globals.size
            functions := Int32.ofNat b.functions.size
            statements := Int32.ofNat statements.size }
        statements
        globaldefs := b.globaldefs
        fielddefs := b.fielddefs
        functions := b.functions
        strings := b.strings
        globals := b.globals }

end Assembler

end QuakeVm
