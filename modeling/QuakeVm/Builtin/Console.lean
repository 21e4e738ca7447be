import QuakeVm.Machine.Autocvar
import QuakeVm.Machine.Link
import QuakeVm.Text.Blank

/-!
# Console and configuration

Builtins that print, read and set variables, ask about extensions, and control the machine.
-/

namespace QuakeVm.Builtins

open QuakeVm.Action

/-- Text of a name. -/
def nameArgument (n : Nat) : Action String := do return Text.lossy (← textArgument n)

/-! ## Variables -/

/-- The number of a variable. -/
def cvar : Action Unit := do
  let name ← nameArgument 0
  returnSingle ((← world).cvars.value name)

/-- A text of a variable; empty if there is no variable. -/
def cvarText (f : Cvar → String) : Action Unit := do
  let name ← nameArgument 0
  returnText (match (← world).cvars.get? name with
    | some v => Bytes.ofText (f v)
    | none => [])

/-- What kind of variable there is. -/
def cvarType : Action Unit := do
  let name ← nameArgument 0
  returnInteger (match (← world).cvars.get? name with
    | some v => v.typeBits
    | none => 0)

/-- Set a variable. The globals of this program follow at once, those of the other one when this one
has returned. -/
def setVariable (name text : String) : Action Unit := do
  let (changed, w) := (← world).setCvar name text
  modifyWorld fun _ => w
  if changed then
    modifyWorld fun w =>
      { w with changed := if w.changed.contains name then w.changed else w.changed ++ [name] }
    modifyMachine (·.update w.cvars name)

/-- Set a variable. -/
def cvarSet : Action Unit := do
  let name ← nameArgument 0
  let text ← nameArgument 1
  setVariable name text

/-! ## Console -/

/-- Print all arguments. -/
def print : Action Unit := do
  let s ← textFrom 0
  modifyWorld (·.print s)

/-- Print all arguments for developers. -/
def dprint : Action Unit := do
  if (← world).cvars.value "developer" != 0 then print

/-- Queue a command. -/
def localcmd : Action Unit := do
  let s ← textFrom 0
  record .debug fun _ => s!"localcmd: {Text.trimEnd (Text.lossy s)}"
  modifyWorld fun w => { w with commandText := w.commandText ++ s }

/-- Whether a name is that of a command (1) or of a variable (2). -/
def checkcommand : Action Unit := do
  let name ← nameArgument 0
  let w ← world
  returnInteger (if w.commands.contains name then 1 else if w.cvars.contains name then 2 else 0)

/-! ## The machine -/

/-- End the program. -/
def raise : Action Unit := do
  let message := Text.lossy (← textFrom 0)
  let role ← role
  record .error fun _ => s!"{role.name} VM: error: {message}"
  fail (.raised message)

/-- Report a breakpoint. -/
def break_ : Action Unit := do
  let m ← machine
  caution s!"{m.role.name} VM: break statement at {m.statement}"

/-- Begin or end to record every statement. -/
def trace (on : Bool) : Action Unit := modifyMachine fun m => { m with tracing := on }

/-! ## Extensions -/

/-- Whether an extension can be used. -/
def askExtension (name : String) : Action Bool := do
  let (yes, w) := (← world).queryExtension name
  modifyWorld fun _ => w
  return yes

/-- Whether an extension can be used. The first question about each is recorded. -/
def checkextension : Action Unit := do
  let name ← nameArgument 0
  let yes ← askExtension name
  let key := Extension.raised name
  if !(← world).queried.contains key then
    modifyWorld fun w => { w with queried := w.queried ++ [key] }
    let role ← role
    record .info fun _ => s!"{role.name} VM: checkextension(\"{name}\") = {yes}"
  returnFlag yes

/-- The number of a builtin, whoever has it. -/
def builtinsupported : Action Unit := do
  let name ← nameArgument 0
  returnInteger (match catalog.find? name with
    | some b => b.number
    | none => 0)

/-- Whether a function is a complete builtin. -/
def checkbuiltin : Action Unit := do
  let f ← wordArgument 0
  returnFlag ((← machine).usable f.toInt)

end QuakeVm.Builtins
