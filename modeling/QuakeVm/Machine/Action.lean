import QuakeVm.Machine.Basic
import QuakeVm.World

/-!
# Actions

An action is what a program does to its machine and to the world around it. It may end in a fault;
what it did before stays done.

Builtins read their arguments from the parameter registers and leave their result in the return
register.
-/

namespace QuakeVm

/-- A machine in the world. -/
structure Activation where
  machine : Machine
  world : World

/-- Something a machine does. -/
abbrev Action := EStateM Fault Activation

namespace Activation

/-- The activation with another machine. -/
@[inline]
def mapMachine (a : Activation) (f : Machine → Machine) : Activation :=
  { a with machine := f a.machine }

/-- The activation in another world. -/
@[inline]
def mapWorld (a : Activation) (f : World → World) : Activation := { a with world := f a.world }

end Activation

namespace Action

/-- The machine. -/
@[inline]
def machine : Action Machine := do return (← get).machine

/-- The world. -/
@[inline]
def world : Action World := do return (← get).world

/-- Change the machine. -/
@[inline]
def modifyMachine (f : Machine → Machine) : Action Unit := modify (·.mapMachine f)

/-- Change the world. -/
@[inline]
def modifyWorld (f : World → World) : Action Unit := modify (·.mapWorld f)

/-- End in a fault. -/
def fail {α : Type} (c : Cause) : Action α := throw (.ofCause c)

/-- What a computation gives, or the fault it ends in. -/
def lift {α : Type} : Except Cause α → Action α
  | .ok a => pure a
  | .error c => fail c

/-- Add a record to the log. -/
def record (level : Level) (text : Unit → String) : Action Unit :=
  modifyWorld fun w => { w with log := w.log.add level text }

/-- Add a caution to the log. -/
def caution (text : String) : Action Unit := modifyWorld (·.caution text)

/-- The role of the program. -/
def role : Action Role := do return (← machine).role

/-! ## Registers -/

/-- Change the registers. -/
@[inline]
def modifyRegisters (f : Registers → Registers) : Action Unit :=
  modifyMachine fun m => { m with registers := f m.registers }

/-- The word of a register. -/
@[inline]
def word (i : Nat) : Action Int32 := do return (← get).machine.registers.get i

/-- The single of a register. -/
@[inline]
def single (i : Nat) : Action Float32 := do return (← get).machine.registers.float i

/-- The vector that begins at a register. -/
@[inline]
def vector (i : Nat) : Action Vec3 := do return (← get).machine.registers.vector i

/-- The text of a handle. Reading a handle that names nothing is recorded. -/
def text (h : Int) : Action Bytes := do
  let t := (← get).machine.strings
  if let some complaint := t.complaint? h then record .debug fun _ => complaint
  return t.get h

/-! ## Strings -/

/-- A handle of a string that the next temporary strings push out. A string too long for one is cut,
with a caution. -/
def temporary (s : Bytes) : Action Int := do
  if let some note := StringTable.cut? s then caution note
  let (h, strings) := (← machine).strings.temp s
  modifyMachine fun m => { m with strings }
  return h

/-- A handle of a string that stays. -/
def permanent (s : Bytes) : Action Int := do
  let (h, strings) := (← machine).strings.engine s
  modifyMachine fun m => { m with strings }
  return h

/-- A handle of some strings put together, which stays until it is released. -/
def zone (parts : List Bytes) : Action Int := do
  let (h, strings) := (← machine).strings.zoned parts
  modifyMachine fun m => { m with strings }
  return h

/-- Release the string of a handle; whether there was one. A handle that names another string than a
zoned one is a caution, except the null string. -/
def unzone (h : Int) : Action Bool := do
  let t := (← machine).strings
  match t.unzone? h with
  | some strings =>
    modifyMachine fun m => { m with strings }
    return true
  | none =>
    if h != 0 then caution (t.notZoned h)
    return false

/-- Release all zoned strings; their number. -/
def unzoneAll : Action Nat := do
  let (count, strings) := (← machine).strings.unzoneAll
  modifyMachine fun m => { m with strings }
  if 0 < count then record .debug fun _ => s!"released {count} zoned strings"
  return count

/-! ## Arguments -/

/-- The number of arguments. -/
def argumentCount : Action Nat := do return (← machine).argumentCount

/-- An argument as a single. -/
def singleArgument (n : Nat) : Action Float32 := single (parameter n)

/-- An argument as a word. -/
def wordArgument (n : Nat) : Action Int32 := word (parameter n)

/-- An argument as an integer: a single without its fraction. -/
def integerArgument (n : Nat) : Action Int := do return Number.toInt32 (← singleArgument n)

/-- An argument as a truth value: a single other than zero. -/
def flagArgument (n : Nat) : Action Bool := do return (← singleArgument n) != 0

/-- An argument as a vector. -/
def vectorArgument (n : Nat) : Action Vec3 := vector (parameter n)

/-- An argument as a string. -/
def textArgument (n : Nat) : Action Bytes := do text (← wordArgument n).toInt

/-- `count` arguments from `n` on, each read in the same way. -/
def readArguments {α : Type} (read : Nat → Action α) (n : Nat) : Nat → Action (List α)
  | 0 => pure []
  | count + 1 => do
    let v ← read n
    let rest ← readArguments read (n + 1) count
    return v :: rest

/-- All arguments from `n` on, each read in the same way. -/
def argumentsFrom {α : Type} (read : Nat → Action α) (n : Nat) : Action (List α) := do
  readArguments read n ((← argumentCount) - n)

/-- The strings of all arguments from `n` on. -/
def textsFrom (n : Nat) : Action (List Bytes) := argumentsFrom textArgument n

/-- The strings of all arguments from `n` on, put together. -/
def textFrom (n : Nat) : Action Bytes := do return (← textsFrom n).flatten

/-! ## Results -/

/-- Return a word. -/
def returnWord (w : Int32) : Action Unit := modifyRegisters (·.set returnRegister w)

/-- Return a single. -/
def returnSingle (v : Float32) : Action Unit := modifyRegisters (·.setFloat returnRegister v)

/-- Return an integer as a single. -/
def returnInteger (i : Int) : Action Unit := returnSingle (Number.single i)

/-- Return a truth value as a single. -/
def returnFlag (b : Bool) : Action Unit := returnSingle (if b then 1 else 0)

/-- Return a vector. -/
def returnVector (v : Vec3) : Action Unit := modifyRegisters (·.setVector returnRegister v)

/-- Return a string as a temporary string. -/
def returnText (s : Bytes) : Action Unit := do returnWord (Int32.ofInt (← temporary s))

/-- Return the null string. -/
def returnNull : Action Unit := returnWord 0

/-- Return a string, or the null string if there is none. -/
def returnText? : Option Bytes → Action Unit
  | some s => returnText s
  | none => returnNull

end Action

end QuakeVm
