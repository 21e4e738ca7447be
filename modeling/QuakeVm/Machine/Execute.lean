import QuakeVm.Builtin.Run
import QuakeVm.Machine.Instruction

/-!
# Running programs

`step` fetches a statement and does what it says; `runFrom` takes steps until the function it was
started with has returned, or until it has taken as many as it may. A fault that ends a run carries
the active functions, and the machine is at rest afterwards.
-/

namespace QuakeVm

open QuakeVm.Action

/-! ## Statements -/

/-- A text filled up with spaces on the left. -/
def padFront (width : Nat) (s : String) : String :=
  String.ofList (List.replicate (width - s.length) ' ') ++ s

/-- The record about a statement. -/
def statementText (index : Int) (op : Opcode) (s : Statement) : String :=
  let number (n : Int) (width : Nat) : String := padFront width s!"{n}"
  number index 6 ++ ": " ++ Extension.lowered op.name ++ " " ++ number s.a.toNat 5 ++ " "
    ++ number s.b.toNat 5 ++ " " ++ number s.c.toNat 5

/-- The instruction at an index, which becomes the current statement. -/
def fetch (index : Int) : Action Instruction := do
  match Program.entry? (← machine).program.statements index with
  | none => fail (.badStatement index)
  | some s =>
    modifyMachine fun m => { m with statement := index }
    match Opcode.ofNumber? s.op with
    | none => fail (.badOpcode s.op.toNat)
    | some op =>
      if (← machine).tracing then record .trace fun _ => statementText index op s
      return .ofStatement op s

/-- The entities changed. -/
def setEntities (entities : Entities) : Action Unit := modifyMachine fun m => { m with entities }

/-- Whether a handle names the empty string. The null string is not read. -/
def isEmptyText (h : Int) : Action Bool := do
  if h == 0 then return true
  return (← text h).isEmpty

/-- Words of entities from a pointer on, copied to registers one after the other. -/
def loadWords (pointer target : Nat) : Nat → Action Unit
  | 0 => pure ()
  | n + 1 => do
    let w ← lift ((← machine).entities.read pointer)
    modifyRegisters (·.set target w)
    loadWords (pointer + 1) (target + 1) n

/-- Registers copied to words of entities from a pointer on, one after the other. -/
def storeWords (source pointer : Nat) : Nat → Action Unit
  | 0 => pure ()
  | n + 1 => do
    let w ← word source
    setEntities (← lift ((← machine).entities.write pointer w))
    storeWords (source + 1) (pointer + 1) n

/-- A word as a pointer. -/
def pointerOf (w : Int32) : Nat := w.toUInt32.toNat

/-- The pointer to the field of an entity that two registers give. -/
def fieldPointer (entity field : Nat) : Action Nat := do
  let e := (← word entity).toInt
  let f := (← word field).toInt
  lift ((← machine).entities.pointer e f)

/-- Set a field of an entity. -/
def setField (entity field : Int) (w : Int32) : Action Unit := do
  setEntities (← lift ((← machine).entities.set entity field w))

/-- Set the fields that drive an entity's animation. -/
def setState (frame think : Nat) : Action Unit := do
  let entity := (← word selfRegister).toInt
  match (← machine).stateFields with
  | none => fail (.noSuchField "nextthink/frame/think")
  | some fields =>
    setField entity fields.nextthink ((← single timeRegister) + 0.1).toBits.toInt32
    setField entity fields.frame (← word frame)
    setField entity fields.think (← word think)

/-! ## Calls -/

/-- What a slot holds; a slot that holds nothing is bound first. -/
def dispatch (slot : Nat) : Action Primitive := do
  match (← machine).slot? slot with
  | some p => return p
  | none => bindPending

/-- The fault of a builtin, with the name of the builtin. -/
def nameBuiltin (slot : Nat) (f : Fault) : Fault :=
  match catalog.lookup? slot with
  | some b => f.inBuiltin b.entry.name
  | none => f

/-- Run the builtin of a slot. -/
def callBuiltin (slot : Nat) : Action Unit := do
  let m ← machine
  record .trace fun _ => s!"builtin #{slot} ({m.argumentCount} args)"
  tryCatch (do Builtins.run (← dispatch slot)) fun f => throw (nameBuiltin slot f)

/-- The machine in a function; the statement it begins with. -/
def enterFunction (number resume : Int) : Action Int := do
  let (s, m) ← lift ((← machine).enter number resume)
  modifyMachine fun _ => m
  return s

/-- The machine back in the caller; the statement to go on with. -/
def leaveFunction : Action Int := do
  let (s, m) ← lift (← machine).leave
  modifyMachine fun _ => m
  return s

/-- Call a function; the statement to go on with. -/
def callFunction (number : Int) (arguments : Nat) (next : Int) : Action Int := do
  modifyMachine fun m => { m with argumentCount := arguments }
  let f ← lift ((← machine).program.function number)
  match f.slot? with
  | some slot =>
    if Limits.builtins ≤ slot then fail (.badBuiltinNumber slot)
    callBuiltin slot
    return next
  | none => enterFunction number next

/-! ## Runs -/

/-- Do what an instruction says; the statement to go on with, or none when the function that was
started at a given depth has returned. -/
def perform (exitDepth : Nat) (next : Int) : Instruction → Action (Option Int)
  | .compute f => do
    modifyRegisters f
    return some next
  | .compareText a b c equal => do
    let x ← text (← word a).toInt
    let y ← text (← word b).toInt
    modifyRegisters (Instruction.setTruth · c ((x == y) == equal))
    return some next
  | .emptyText a c => do
    let empty ← isEmptyText (← word a).toInt
    modifyRegisters (Instruction.setTruth · c empty)
    return some next
  | .load entity field target => do
    loadWords (← fieldPointer entity field) target 1
    return some next
  | .loadVector entity field target => do
    loadWords (← fieldPointer entity field) target 3
    return some next
  | .address entity field target => do
    if (← word entity) == 0 && (← machine).worldLocked then fail .worldAssignment
    let p ← fieldPointer entity field
    modifyRegisters (·.set target (Int32.ofNat p))
    return some next
  | .store source pointer => do
    storeWords source (pointerOf (← word pointer)) 1
    return some next
  | .storeVector source pointer => do
    storeWords source (pointerOf (← word pointer)) 3
    return some next
  | .jump condition distance => do
    if condition (← machine).registers then return some (next + distance - 1) else return some next
  | .call function arguments => do
    some <$> callFunction (← word function).toInt arguments next
  | .leave value => do
    if let some a := value then modifyRegisters (·.copy returnRegister a 3)
    let s ← leaveFunction
    if (← machine).depth == exitDepth then return none else return some s
  | .state frame think => do
    setState frame think
    return some next

/-- Fetch and perform a statement. -/
def step (exitDepth : Nat) (s : Int) : Action (Option Int) := do
  perform exitDepth (s + 1) (← fetch s)

/-- Take steps until the function has returned; a run that needs more than `n` of them is stopped. -/
def runFrom (exitDepth : Nat) : Nat → Int → Action Unit
  | 0, _ => do fail (.runaway (← machine).limit)
  | n + 1, s => do
    match ← step exitDepth s with
    | none => pure ()
    | some s => runFrom exitDepth n s

/-- Run a function of the program. The statement with the number of the limit is not executed. -/
def runFunction (number : Int) : Action Unit := do
  let exitDepth := (← machine).depth
  let s ← enterFunction number (-1)
  runFrom exitDepth ((← machine).limit - 1) s

/-- The fault of a run, with the active functions; the machine comes to rest. -/
def unwind (f : Fault) : Action Unit := do
  let m ← machine
  let f := (f.orFunction (m.program.functionName m.function)).orStatement m.statement
  record .error fun _ => s!"{m.role.name} VM: {f.message}"
  modifyMachine (·.reset)
  throw (.traced m.frames f {})

/-- Run a function, which may be a builtin. -/
def execute (number : Int) : Action Unit := do
  let m ← machine
  let f ← lift (m.program.function number)
  match f.slot? with
  | some slot =>
    if Limits.builtins ≤ slot then fail (.badBuiltinNumber slot)
    modifyMachine fun m => { m with argumentCount := f.parameterCount }
    if (m.slot? slot).isNone then discard (bindSlot slot none)
    callBuiltin slot
  | none => tryCatch (runFunction number) unwind

end QuakeVm
