import QuakeVm.Bytes
import QuakeVm.Fault
import QuakeVm.Text.Lossy

/-!
# Programs

A program is six tables: statements, definitions of globals and of entity fields, functions, a blob
of NUL-terminated strings, and the initial contents of the globals. The header repeats their sizes
and places as they were in the file; only its field count matters once a program is loaded.
-/

namespace QuakeVm

/-- The type of a global or a field. -/
inductive ValueType where
  | void
  | string
  | float
  | vector
  | entity
  | field
  | function
  | pointer
  | other (code : UInt16)
  deriving Repr, DecidableEq

namespace ValueType

/-- The type of a code. -/
def ofCode (n : UInt16) : ValueType :=
  if n == 0 then .void
  else if n == 1 then .string
  else if n == 2 then .float
  else if n == 3 then .vector
  else if n == 4 then .entity
  else if n == 5 then .field
  else if n == 6 then .function
  else if n == 7 then .pointer
  else .other n

/-- The code of a type. -/
def code : ValueType → UInt16
  | .void => 0
  | .string => 1
  | .float => 2
  | .vector => 3
  | .entity => 4
  | .field => 5
  | .function => 6
  | .pointer => 7
  | .other n => n

/-- The number of words a value takes. -/
def size : ValueType → Nat
  | .vector => 3
  | _ => 1

/-- The name of a type in messages. -/
def name : ValueType → String
  | .void => "Void"
  | .string => "String"
  | .float => "Float"
  | .vector => "Vector"
  | .entity => "Entity"
  | .field => "Field"
  | .function => "Function"
  | .pointer => "Pointer"
  | .other n => s!"Bad({n})"

end ValueType

/-- An instruction with its three operands. -/
structure Statement where
  op : UInt16 := 0
  a : UInt16 := 0
  b : UInt16 := 0
  c : UInt16 := 0
  deriving Repr, DecidableEq

/-- A named global or field. The highest bit of the type says whether it is saved. -/
structure Definition where
  type : UInt16 := 0
  offset : UInt16 := 0
  name : Int32 := 0
  deriving Repr, DecidableEq

/-- The bit of a definition's type that marks it as saved. -/
def savedBit : UInt16 := 0x8000

/-- The type of a definition. -/
def Definition.valueType (d : Definition) : ValueType := .ofCode (d.type &&& 0x7fff)

/-- A function. A negative first statement names a builtin slot. -/
structure Function where
  firstStatement : Int32 := 0
  parmStart : Int32 := 0
  locals : Int32 := 0
  profile : Int32 := 0
  name : Int32 := 0
  file : Int32 := 0
  parameters : Int32 := 0
  parameterSizes : Vector UInt8 8 := .replicate 8 0
  deriving Repr, DecidableEq

namespace Function

/-- The first global of the function's window. -/
def windowStart (f : Function) : Nat := f.parmStart.toInt.toNat

/-- The number of globals that a call saves. -/
def windowSize (f : Function) : Nat := f.locals.toInt.toNat

/-- The number of parameters that a call copies. -/
def parameterCount (f : Function) : Nat := min f.parameters.toInt.toNat 8

/-- The builtin slot of the function, if it is a builtin. -/
def slot? (f : Function) : Option Nat :=
  if f.firstStatement < 0 then some (-f.firstStatement.toInt).toNat else none

end Function

/-- The header of a program file, in file order. -/
structure Header where
  version : Int32 := 0
  crc : Int32 := 0
  statementsAt : Int32 := 0
  statements : Int32 := 0
  globaldefsAt : Int32 := 0
  globaldefs : Int32 := 0
  fielddefsAt : Int32 := 0
  fielddefs : Int32 := 0
  functionsAt : Int32 := 0
  functions : Int32 := 0
  stringsAt : Int32 := 0
  strings : Int32 := 0
  globalsAt : Int32 := 0
  globals : Int32 := 0
  entityFields : Int32 := 0
  deriving Repr, DecidableEq

/-- The fields of a header in file order. -/
def Header.toList (h : Header) : List Int32 :=
  [h.version, h.crc, h.statementsAt, h.statements, h.globaldefsAt, h.globaldefs, h.fielddefsAt,
    h.fielddefs, h.functionsAt, h.functions, h.stringsAt, h.strings, h.globalsAt, h.globals,
    h.entityFields]

/-- A program. -/
structure Program where
  header : Header := {}
  statements : Array Statement := #[]
  globaldefs : Array Definition := #[]
  fielddefs : Array Definition := #[]
  functions : Array Function := #[]
  strings : Bytes := []
  globals : Array Int32 := #[]
  deriving Repr, DecidableEq

namespace Program

/-- The string at an offset of the blob; outside of it, the empty string. -/
def stringAt (p : Program) (offset : Int) : Bytes :=
  if offset < 0 then [] else Bytes.untilNul (p.strings.drop offset.toNat)

/-- The entry of a table at a signed index. -/
def entry? {α : Type} (table : Array α) (i : Int) : Option α :=
  if i < 0 then none else table[i.toNat]?

/-- The name of a function. -/
def functionName (p : Program) (f : Int) : String :=
  match entry? p.functions f with
  | some f => Text.lossy (p.stringAt f.name.toInt)
  | none => "<bad function>"

/-- The source file of a function. -/
def functionFile (p : Program) (f : Int) : String :=
  match entry? p.functions f with
  | some f => Text.lossy (p.stringAt f.file.toInt)
  | none => "?"

/-- The name of a definition. -/
def definitionName (p : Program) (d : Definition) : String := Text.lossy (p.stringAt d.name.toInt)

/-- The first function of a name. -/
def findFunction? (p : Program) (name : String) : Option Nat :=
  p.functions.findIdx? fun f => p.stringAt f.name.toInt == Bytes.ofText name

/-- The first global definition of a name. -/
def findGlobal? (p : Program) (name : String) : Option Definition :=
  p.globaldefs.find? fun d => p.stringAt d.name.toInt == Bytes.ofText name

/-- The first field definition of a name. -/
def findField? (p : Program) (name : String) : Option Definition :=
  p.fielddefs.find? fun d => p.stringAt d.name.toInt == Bytes.ofText name

/-- The function of a number. Number zero is the null function. -/
def function (p : Program) (f : Int) : Except Cause Function :=
  if f == 0 then .error .nullFunction
  else
    match entry? p.functions f with
    | some f => .ok f
    | none => .error (.badFunction f)

theorem entry?_of_function {p : Program} {n : Int} {f : Function} (h : p.function n = .ok f) :
    entry? p.functions n = some f := by
  unfold function at h
  split at h
  · cases h
  split at h
  next hf => cases h; exact hf
  next => cases h

/-- A function has the name at the offset that its record gives. -/
theorem functionName_of_function {p : Program} {n : Int} {f : Function} (h : p.function n = .ok f) :
    p.functionName n = Text.lossy (p.stringAt f.name.toInt) := by
  rw [functionName, entry?_of_function h]

/-- A function has the source file at the offset that its record gives. -/
theorem functionFile_of_function {p : Program} {n : Int} {f : Function} (h : p.function n = .ok f) :
    p.functionFile n = Text.lossy (p.stringAt f.file.toInt) := by
  rw [functionFile, entry?_of_function h]

end Program

end QuakeVm
