import QuakeVm.Machine.Autocvar
import QuakeVm.Machine.Link

/-!
# Loading programs

A function without a body and without parameters stands for the builtin of its name. When a program
is loaded and its extensions are enabled, such functions get the slots of their builtins.
-/

namespace QuakeVm

/-- The fields that state functions set, if the program has them all. -/
def StateFields.ofProgram? (p : Program) : Option StateFields := do
  let nextthink ← p.findField? "nextthink"
  let frame ← p.findField? "frame"
  let think ← p.findField? "think"
  return ⟨nextthink.offset.toNat, frame.offset.toNat, think.offset.toNat⟩

namespace Machine

/-- The statements a run may execute, from the variable that says so. -/
def limitOf (c : Cvars) : Nat :=
  let v := c.value "pr_runaway"
  if 1 ≤ v then Number.toUnsigned32 v else Limits.statements

/-- The machine of a program, before functions are bound by name. -/
def new (role : Role) (p : Program) (c : Cvars) : Machine where
  role
  program := p
  registers := .ofGlobals p.globals
  strings := .ofConstants p.strings
  entities := .new p.header.entityFields.toInt.toNat Limits.entities
  slots := initialSlots role
  extensions := Extension.areEnabled c role
  limit := limitOf c
  stateFields := StateFields.ofProgram? p

end Machine

/-- Whether a function stands for the builtin of its name. -/
def Function.isNamedBuiltin (f : Function) : Bool :=
  f.firstStatement == 0 && f.parmStart == 0 && f.locals == 0 && f.parameters == 0

namespace Activation

/-- A function with the slot of the builtin that it stands for, and the number of functions bound so
far. -/
def bindNamed (role : Role) (name : String) (f : Function) (bound : Nat) (w : World) :
    Function × Nat × World :=
  if !f.isNamedBuiltin then (f, bound, w)
  else
    match catalog.find? name with
    | some b =>
      ({ f with firstStatement := -Int32.ofNat b.number }, bound + 1,
        w.record .trace s!"{name} bound to builtin #{b.number}")
    | none => (f, bound, w.record .debug s!"{role.name} VM: no builtin named {name}")

/-- Functions with the slots of the builtins that they stand for. -/
def bindAllNamed (role : Role) (p : Program) (bound : Nat) (w : World) :
    List Function → List Function × Nat × World
  | [] => ([], bound, w)
  | f :: rest =>
    let (f', bound, w) := bindNamed role (Text.lossy (p.stringAt f.name.toInt)) f bound w
    let (rest', bound, w) := bindAllNamed role p bound w rest
    (f' :: rest', bound, w)

/-- The activation with the functions of its program bound by name. The null function stays. -/
def link (s : Activation) : Activation :=
  let m := s.machine
  if !m.extensions then s
  else
    let functions := m.program.functions.toList
    let (bound', count, w) := bindAllNamed m.role m.program 0 s.world (functions.drop 1)
    let program := { m.program with functions := (functions.take 1 ++ bound').toArray }
    { machine := { m with program }
      world := w.record .debug s!"{m.role.name} VM: {count} builtins bound by name" }

/-- The activation of a program that has just been loaded. -/
def load (role : Role) (p : Program) (w : World) : Activation :=
  let s := (Activation.mk (.new role p w.cvars) w).link.declareAll
  let note := if s.machine.extensions then "" else " (extensions disabled)"
  s.mapWorld (·.record .info
    (s!"{role.name} VM loaded: {p.functions.size} functions, {p.statements.size} statements"
      ++ note))

end Activation

end QuakeVm
