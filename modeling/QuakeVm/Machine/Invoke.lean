import QuakeVm.Builtin.Run

/-!
# Calling a builtin from the host

A host can call a builtin without a program that calls it. The arguments are put into the parameter
registers as a calling program would put them, after all of these are cleared.
-/

namespace QuakeVm

open QuakeVm.Action

/-- An argument that a host passes. -/
inductive Argument where
  | single (v : Float32)
  | word (w : Int32)
  | vector (v : Vec3)
  | text (s : Bytes)

/-- Put an argument into the registers from one on. -/
def Argument.store (i : Nat) : Argument → Action Unit
  | .single v => modifyRegisters (·.setFloat i v)
  | .word w => modifyRegisters (·.set i w)
  | .vector v => modifyRegisters (·.setVector i v)
  | .text s => do
    let h ← permanent s
    modifyRegisters (·.set i (Int32.ofInt h))

/-- Put arguments into the parameter registers, from parameter `n` on. -/
def storeArguments (n : Nat) : List Argument → Action Unit
  | [] => pure ()
  | a :: rest => do
    a.store (parameter n)
    storeArguments (n + 1) rest

/-- The registers with all parameters zero. -/
def Registers.clearParameters (r : Registers) : Registers :=
  r.setWindow (parameter 0) (.replicate (parameter maxParameters - parameter 0) 0)

/-- Call a primitive with arguments. -/
def invoke (p : Primitive) (args : List Argument) : Action Unit := do
  modifyRegisters Registers.clearParameters
  storeArguments 0 args
  modifyMachine fun m => { m with argumentCount := args.length }
  Builtins.run p

end QuakeVm
