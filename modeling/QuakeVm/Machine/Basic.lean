import QuakeVm.Builtin.Primitive
import QuakeVm.Entities
import QuakeVm.Program.Basic
import QuakeVm.Registers
import QuakeVm.StringTable
import QuakeVm.Text.Token

/-!
# The machine

A machine is a loaded program with everything that it changes while it runs. Calls are kept in two
stacks: who called and where to go on, and the words that the called functions displaced. A function
owns a window of the globals; a call saves the window and copies the parameters into its beginning,
and the return puts the saved words back.
-/

namespace QuakeVm

/-- A function that waits for one it called, and the statement to go on with. -/
structure Call where
  resume : Int
  function : Int
  deriving Repr, DecidableEq

/-- The fields that state functions set. -/
structure StateFields where
  nextthink : Int
  frame : Int
  think : Int
  deriving Repr, DecidableEq

/-- A global that follows a variable. -/
structure Autocvar where
  name : String
  offset : Nat
  type : ValueType
  deriving Repr, DecidableEq

/-- A loaded program and its state. -/
structure Machine where
  role : Role
  program : Program
  registers : Registers
  strings : StringTable
  entities : Entities
  /-- What each builtin slot holds, once it is known. -/
  slots : Array (Option Primitive)
  /-- Whether builtins outside of the base set can be used. -/
  extensions : Bool
  tokens : List Token := []
  /-- The functions that wait, the innermost first. -/
  calls : List Call := []
  /-- The saved windows, the innermost first. -/
  saved : List Int32 := []
  /-- The running function; zero when none runs. -/
  function : Int := 0
  /-- The statement fetched last. -/
  statement : Int := 0
  /-- The number of arguments of the last call. -/
  argumentCount : Nat := 0
  /-- The number of statements at which a run is stopped. -/
  limit : Nat
  /-- Whether every statement is recorded. -/
  tracing : Bool := false
  /-- Whether the world is protected from changes. -/
  worldLocked : Bool := false
  autocvars : List Autocvar := []
  stateFields : Option StateFields := none

namespace Machine

/-- The depth of the call stack. -/
def depth (m : Machine) : Nat := m.calls.length

/-- The machine at rest. -/
def reset (m : Machine) : Machine :=
  { m with calls := [], saved := [], function := 0, argumentCount := 0 }

/-- The first function of a name; function zero does not count. -/
def findFunction (m : Machine) (name : String) : Except Cause Int :=
  match m.program.findFunction? name with
  | some (i + 1) => .ok (i + 1 : Nat)
  | _ => .error (.noSuchFunction name)

/-- The global of a name. -/
def globalOffset? (m : Machine) (name : String) : Option Nat :=
  (m.program.findGlobal? name).map (·.offset.toNat)

/-! ## Calls -/

/-- Parameters copied into a window: each parameter register into its place, from parameter `n` on. -/
def copyParameters (r : Registers) (target n : Nat) : List Nat → Registers
  | [] => r
  | size :: rest => copyParameters (r.copy target (parameter n) size) (target + size) (n + 1) rest

/-- The sizes of the parameters that a call copies. -/
def parameterSizes (f : Function) : List Nat :=
  (f.parameterSizes.toList.take f.parameterCount).map (·.toNat)

/-- The machine in a function, and the statement it begins with; `resume` is where its caller goes
on. -/
def enter (m : Machine) (number resume : Int) : Except Cause (Int × Machine) :=
  match m.program.function number with
  | .error e => .error e
  | .ok f =>
    if Limits.callDepth ≤ m.calls.length then .error (.stackOverflow m.calls.length)
    else if Limits.savedLocals < m.saved.length + f.windowSize then
      .error (.localsOverflow Limits.savedLocals)
    else
      .ok (f.firstStatement.toInt, { m with
        calls := ⟨resume, m.function⟩ :: m.calls
        saved := m.registers.window f.windowStart f.windowSize ++ m.saved
        registers := copyParameters m.registers f.windowStart 0 (parameterSizes f)
        function := number })

/-- The machine back in the caller, and the statement to go on with. -/
def leave (m : Machine) : Except Cause (Int × Machine) :=
  match m.program.function m.function with
  | .error e => .error e
  | .ok f =>
    if m.saved.length < f.windowSize then .error (.localsOverflow m.saved.length)
    else
      match m.calls with
      | [] => .error (.stackOverflow 0)
      | call :: calls =>
        .ok (call.resume, { m with
          calls
          saved := m.saved.drop f.windowSize
          registers := m.registers.setWindow f.windowStart (m.saved.take f.windowSize)
          function := call.function })

/-- The active functions of the program, the innermost first. -/
def frames (m : Machine) : List Frame :=
  let frame (f statement : Int) : Frame :=
    ⟨m.program.functionName f, m.program.functionFile f, statement⟩
  frame m.function m.statement ::
    (m.calls.filter (0 < ·.function)).map fun c => frame c.function (c.resume - 1)

end Machine

end QuakeVm
