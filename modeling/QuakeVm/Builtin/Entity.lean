import QuakeVm.Machine.Action

/-!
# Entities

Builtins that make, remove, visit and show entities.
-/

namespace QuakeVm.Builtins

open QuakeVm.Action

/-- Change the entities. -/
def modifyEntities (f : Entities → Entities) : Action Unit :=
  modifyMachine fun m => { m with entities := f m.entities }

/-- A new entity. -/
def spawn : Action Unit := do
  let (n, entities) ← lift (← machine).entities.allocate
  modifyMachine fun m => { m with entities }
  returnWord (Int32.ofNat n)

/-- Remove an entity. -/
def remove : Action Unit := do
  let n := (← wordArgument 0).toInt
  match (← machine).entities.remove? n with
  | some entities => modifyMachine fun m => { m with entities }
  | none => caution s!"remove: entity {n} is the world or already free"

/-- The next entity. -/
def nextent : Action Unit := do
  let n := (← wordArgument 0).toInt
  returnWord (Int32.ofNat ((← machine).entities.next n))

/-! ## Showing an entity -/

/-- The words of a field that takes `size` of them. -/
def fieldWords (e : Entities) (number : Int) (offset : Nat) : Nat → Except Cause (List Int32)
  | 0 => .ok []
  | size + 1 => do
    let w ← e.get number offset
    let rest ← fieldWords e number (offset + 1) size
    return w :: rest

/-- The text of a value of a type. -/
def valueText (type : ValueType) (words : List Int32) : Action String := do
  let w := words.getD 0 0
  let singles := words.map fun w => Float32.ofBits w.toUInt32
  match type with
  | .float => return Number.plainText (singles.getD 0 0)
  | .vector => return (Vec3.ofList singles).text
  | .string => return Text.lossy (← text w.toInt)
  | .entity => return s!"entity {w}"
  | .function => return (← machine).program.functionName w.toInt ++ "()"
  | _ => return s!"{w}"

/-- Whether a field is a component of a vector field. -/
def isComponentField (fields : List Definition) (d : Definition) : Bool :=
  d.valueType == .float && fields.any fun v =>
    v.valueType == .vector && v.offset.toNat ≤ d.offset.toNat &&
      d.offset.toNat < v.offset.toNat + 3

/-- A text filled up with spaces on the right. -/
def padRight (width : Nat) (s : String) : String :=
  s ++ String.ofList (List.replicate (width - s.length) ' ')

/-- The lines about the fields of an entity that are not zero. -/
def fieldLines (number : Int) (all : List Definition) : List Definition → Action String
  | [] => return ""
  | d :: rest => do
    if isComponentField all d then fieldLines number all rest
    else
      let m ← machine
      let words ← lift (fieldWords m.entities number d.offset.toNat d.valueType.size)
      if words.all (· == 0) then fieldLines number all rest
      else
        let value ← valueText d.valueType words
        let line := padRight 15 (m.program.definitionName d) ++ " " ++ value ++ "\n"
        let lines ← fieldLines number all rest
        return line ++ lines

/-- Print an entity. -/
def eprint : Action Unit := do
  let n := (← wordArgument 0).toInt
  let fields := (← machine).program.fielddefs.toList
  let lines ← fieldLines n fields fields
  let title := s!"\nEDICT {n}:\n"
  modifyWorld (·.print (Bytes.ofText (title ++ lines)))

end QuakeVm.Builtins
