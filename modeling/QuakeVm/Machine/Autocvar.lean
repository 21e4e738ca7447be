import QuakeVm.Machine.Action

/-!
# Globals that follow variables

A global whose name begins with `autocvar_` follows the variable that the rest of its name names. A
variable that does not exist is made when the program is loaded, with the value of the global. The
components of a vector are not followed on their own.
-/

namespace QuakeVm

namespace Autocvar

/-- What the names of such globals begin with. -/
def marker : String := "autocvar_"

/-- The global of a definition, if its name says so. -/
def ofDefinition? (p : Program) (d : Definition) : Option Autocvar :=
  let name := (p.definitionName d).toList
  if marker.toList.isPrefixOf name then
    some ⟨String.ofList (name.drop marker.length), d.offset.toNat, d.valueType⟩
  else none

/-- Whether a global is a component of a vector that is followed. -/
def isComponent (vectors : List Autocvar) (a : Autocvar) : Bool :=
  a.type == .float && vectors.any fun v =>
    v.type == .vector && v.offset ≤ a.offset && a.offset < v.offset + 3

/-- The globals of a program that follow variables. -/
def ofProgram (p : Program) : List Autocvar :=
  let found := p.globaldefs.toList.filterMap (ofDefinition? p)
  found.filter fun a => !isComponent found a

end Autocvar

namespace Machine

/-- The machine with a global set from a variable. -/
def assign (m : Machine) (a : Autocvar) (v : Cvar) : Machine :=
  match a.type with
  | .float => { m with registers := m.registers.setFloat a.offset v.value }
  | .vector => { m with registers := m.registers.setVector a.offset (Vec3.ofWords v.text) }
  | .string =>
    let (h, strings) := m.strings.engine (Bytes.ofText v.text)
    { m with strings, registers := m.registers.set a.offset (Int32.ofInt h) }
  | _ => m

/-- The machine with a global set from the variable that it follows. -/
def synchronize (m : Machine) (c : Cvars) (a : Autocvar) : Machine :=
  match c.get? a.name with
  | some v => m.assign a v
  | none => m

/-- Whether a global follows a variable. -/
def follows (m : Machine) (name : String) : Bool := m.autocvars.any (·.name == name)

/-- The machine with the first global set that follows a variable. -/
def update (m : Machine) (c : Cvars) (name : String) : Machine :=
  match m.autocvars.find? (·.name == name) with
  | some a => m.synchronize c a
  | none => m

end Machine

namespace Activation

/-- The text that the variable of a global begins with, where the type of the global has one. -/
def autocvarDefault? (m : Machine) (a : Autocvar) : Option String :=
  match a.type with
  | .float => some (Number.plainText (m.registers.float a.offset))
  | .vector =>
    let v := m.registers.vector a.offset
    some (Number.plainText v.x ++ " " ++ Number.plainText v.y ++ " " ++ Number.plainText v.z)
  | .string => some (Text.lossy (m.strings.get (m.registers.get a.offset).toInt))
  | _ => none

/-- The record about reading the string of a global, where there is one. -/
def autocvarComplaint? (m : Machine) (a : Autocvar) : Option String :=
  if a.type == .string then m.strings.complaint? (m.registers.get a.offset).toInt else none

/-- The activation with a variable for a global. -/
def declare (s : Activation) (a : Autocvar) : Activation :=
  if s.world.cvars.contains a.name then
    let world := { s.world with cvars := s.world.cvars.follow a.name "" }
    { machine := s.machine.synchronize world.cvars a, world }
  else
    let s := match autocvarComplaint? s.machine a with
      | some text => s.mapWorld (·.record .debug text)
      | none => s
    match autocvarDefault? s.machine a with
    | none => s.mapWorld (·.caution s!"autocvar_{a.name}: unsupported type {a.type.name}")
    | some text =>
      s.mapWorld fun w =>
        let w := w.record .debug s!"autocvar {a.name} created with default \"{text}\""
        { w with cvars := w.cvars.follow a.name text }

/-- The activation with variables for all globals that follow one. -/
def declareAll (s : Activation) : Activation :=
  let found := Autocvar.ofProgram s.machine.program
  let s := found.foldl declare s
  (s.mapWorld (·.record .debug
      s!"{s.machine.role.name} VM declares {found.length} autocvars")).mapMachine
    fun m => { m with autocvars := found }

end Activation

end QuakeVm
