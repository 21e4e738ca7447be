import QuakeVm.Builtin.Table
import QuakeVm.Machine.Action
import QuakeVm.Opcode

/-!
# Binding builtins

Slots below `Limits.baseBuiltins` hold their builtins as soon as a program is loaded. The others are
bound by the first call: the number of the slot is looked up in the catalogue, and what is found stays
in the slot. A program whose extensions are disabled cannot bind any of those.
-/

namespace QuakeVm

open QuakeVm.Action

/-- The slots of a program that has just been loaded. -/
def Machine.initialSlots (role : Role) : Array (Option Primitive) :=
  .ofFn fun i : Fin Limits.builtins =>
    if i.val < Limits.baseBuiltins then Primitive.resolve? i.val role else none

/-- What a slot holds. -/
def Machine.slot? (m : Machine) (slot : Nat) : Option Primitive := m.slots.getD slot none

/-- Whether a builtin is there only in part. -/
def isStub (slot : Nat) : Bool := ((catalog.lookup? slot).map (·.entry.stub)).getD false

/-- Whether a machine can use a slot outside of the base set. -/
def Machine.allows (m : Machine) (slot : Nat) : Bool :=
  slot < Limits.baseBuiltins || m.extensions

/-- Whether calling a function would run a builtin, and one that is complete. -/
def Machine.usable (m : Machine) (function : Int) : Bool :=
  match m.program.function function with
  | .error _ => false
  | .ok f =>
    match f.slot? with
    | none => false
    | some slot =>
      slot < Limits.builtins && !isStub slot &&
        match m.slot? slot with
        | some _ => true
        | none => m.allows slot && (Primitive.resolve? slot m.role).isSome

/-- Bind a slot. The name is that of the function in the program, if a call asks for it. -/
def bindSlot (slot : Nat) (name? : Option String) : Action Primitive := do
  let m ← machine
  let builtin? := catalog.lookup? slot
  let missing := Cause.unimplementedBuiltin slot (name?.or (builtin?.map (·.entry.name)))
  if !m.allows slot then
    record .error fun _ => s!"{m.role.name} VM: builtin #{slot} called with extensions disabled"
    fail missing
  match Primitive.resolve? slot m.role with
  | none =>
    record .error fun _ => s!"{m.role.name} VM: builtin #{slot} is not implemented"
    fail missing
  | some p =>
    modifyMachine fun m => { m with slots := m.slots.setIfInBounds slot (some p) }
    let name := (builtin?.map (·.entry.name)).getD "?"
    let note := s!"{m.role.name} VM: binding builtin #{slot} ({name})"
    if isStub slot then caution (note ++ ", which is only partially implemented")
    else if (← world).cvars.value "pr_checkextension" == 2 then caution note
    else record .debug fun _ => note
    return p

/-- Bind the slot of the function that the current statement calls. -/
def bindPending : Action Primitive := do
  let m ← machine
  let s ← match Program.entry? m.program.statements m.statement with
    | some s => pure s
    | none => fail (.badStatement m.statement)
  if ((Opcode.ofNumber? s.op).bind Opcode.arguments?).isNone then fail (.badStatement m.statement)
  let number := (m.registers.get s.a.toNat).toInt
  let f ← lift (m.program.function number)
  let slot := -f.firstStatement.toInt
  if slot ≤ 0 || (Limits.builtins : Int) ≤ slot then fail (.badBuiltinNumber slot)
  bindSlot slot.toNat (some (m.program.functionName number))

end QuakeVm
