import QuakeVm.Role

/-!
# Faults

Everything that stops a program or refuses to start one. A fault has a cause and a context, which
names the builtin that raised it and the place in the program where it was raised. A fault that
leaves a running program is wrapped in the functions that were active.

`Fault.message` is the text that users see; `Fault.functions` names the active functions.
-/

namespace QuakeVm

/-- What went wrong on the disk. -/
inductive DiskError where
  | notFound
  | isDirectory
  | notDirectory
  | exists_
  deriving Repr, DecidableEq

/-- The operating system's text and number. -/
def DiskError.detail : DiskError → String
  | .notFound => "No such file or directory (os error 2)"
  | .isDirectory => "Is a directory (os error 21)"
  | .notDirectory => "Not a directory (os error 20)"
  | .exists_ => "File exists (os error 17)"

/-- The kind of the error in words. -/
def DiskError.kind : DiskError → String
  | .notFound => "entity not found"
  | .isDirectory => "is a directory"
  | .notDirectory => "not a directory"
  | .exists_ => "entity already exists"

/-- The parts of a program file. -/
inductive Lump where
  | header
  | statements
  | globaldefs
  | fielddefs
  | functions
  | strings
  | globals
  deriving Repr, DecidableEq

/-- The name of a lump. -/
def Lump.name : Lump → String
  | .header => "header"
  | .statements => "statements"
  | .globaldefs => "globaldefs"
  | .fielddefs => "fielddefs"
  | .functions => "functions"
  | .strings => "strings"
  | .globals => "globals"

/-- Why a program cannot go on, or cannot start. -/
inductive Cause where
  | unimplementedBuiltin (slot : Nat) (name : Option String)
  | badBuiltinNumber (slot : Int)
  | alreadyActive (active requested : Role)
  | noProgram (role : Role)
  | badVersion (expected got : Int)
  | truncated (lump : Lump)
  | badEncoding (message : String)
  | badOpcode (code : Nat)
  | badStatement (index : Int)
  | nullFunction
  | badFunction (index : Int)
  | noSuchFunction (name : String)
  | noSuchField (name : String)
  | badEntity (number : Int)
  | worldAssignment
  | noFreeEntity (max : Nat)
  | runaway (limit : Nat)
  | stackOverflow (depth : Nat)
  | localsOverflow (size : Nat)
  | raised (message : String)
  | unmarkedLabel (label : String) (statement : Nat)
  | disk (error : DiskError)
  deriving Repr, DecidableEq

/-- The text of a cause. -/
def Cause.message : Cause → String
  | .unimplementedBuiltin slot (some name) =>
    s!"Link Error: Builtin #{slot} ({name}) is not implemented"
  | .unimplementedBuiltin slot none => s!"Link Error: Builtin #{slot} is not implemented"
  | .badBuiltinNumber slot => s!"Link Error: Bad builtin call number {slot}"
  | .alreadyActive active requested =>
    s!"VM Switch Error: Cannot activate the {requested.name} VM, the {active.name} VM is already active"
  | .noProgram role => s!"Error: No progs loaded for the {role.name} VM"
  | .badVersion expected got => s!"Progs Error: Expected version {expected}, but got {got}"
  | .truncated lump => s!"Progs Error: The {lump.name} lump extends past the end of the file"
  | .badEncoding message => s!"Progs Error: {message}"
  | .badOpcode code => s!"Runtime Error: Bad opcode {code}"
  | .badStatement index => s!"Runtime Error: Statement {index} is out of range"
  | .nullFunction => "Runtime Error: NULL function"
  | .badFunction index => s!"Runtime Error: Function {index} is out of range"
  | .noSuchFunction name => s!"Error: No such function `{name}'"
  | .noSuchField name => s!"Progs Error: Required entity field `{name}' was not found"
  | .badEntity number => s!"Runtime Error: Bad entity number {number}"
  | .worldAssignment => "Runtime Error: Assignment to world entity"
  | .noFreeEntity max => s!"Runtime Error: No free edicts (max {max})"
  | .runaway limit => s!"Runtime Error: Runaway loop error, {limit} statements executed"
  | .stackOverflow depth => s!"Runtime Error: Stack overflow at depth {depth}"
  | .localsOverflow size => s!"Runtime Error: Locals stack overflow ({size} slots)"
  | .raised message => s!"Program Error: {message}"
  | .unmarkedLabel label statement =>
    s!"Link Error: Label {label} referenced by statement {statement} was never marked"
  | .disk error => s!"IOError: {error.kind}"

/-- Whether a cause ends a running program. Loading errors and unreadable files leave the machine
as it was. -/
def Cause.isFatal : Cause → Bool
  | .badVersion _ _ | .truncated _ | .badEncoding _ | .noProgram _ | .noSuchFunction _ | .disk _
  | .unmarkedLabel _ _ => false
  | _ => true

/-- Where a fault was raised. -/
structure Context where
  builtin : Option String := none
  function : Option String := none
  statement : Option Int := none
  deriving Repr, DecidableEq

/-- The context as it follows a message. A statement without a function is not shown. -/
def Context.text (c : Context) : String :=
  let builtin := match c.builtin with
    | some name => s!" (in {name})"
    | none => ""
  let place := match c.function, c.statement with
    | some name, some index => s!" [{name}:{index}]"
    | some name, none => s!" [{name}]"
    | none, _ => ""
  builtin ++ place

/-- An active function: its name, its source file, and the statement it has reached. -/
structure Frame where
  function : String
  file : String
  statement : Int
  deriving Repr, DecidableEq

/-- One line of a traceback. -/
def Frame.line (f : Frame) : String := s!"  - {f.function} ({f.file}:{f.statement})\n"

/-- A fault: a cause in its context, or a fault that passed through active functions. -/
inductive Fault where
  | plain (cause : Cause) (context : Context)
  | traced (frames : List Frame) (inner : Fault) (context : Context)
  deriving Repr, DecidableEq

namespace Fault

/-- A fault without a context. -/
def ofCause (c : Cause) : Fault := .plain c {}

instance : Coe Cause Fault := ⟨ofCause⟩

/-- The context of the outermost layer. -/
def context : Fault → Context
  | .plain _ c => c
  | .traced _ _ c => c

/-- The fault with another outermost context. -/
def withContext (f : Fault) (c : Context) : Fault :=
  match f with
  | .plain cause _ => .plain cause c
  | .traced frames inner _ => .traced frames inner c

/-- The fault raised by a builtin, whatever was said before. -/
def inBuiltin (f : Fault) (name : String) : Fault :=
  f.withContext { f.context with builtin := some name }

/-- The builtin that raised the fault, unless one is known. -/
def orBuiltin (f : Fault) (name : String) : Fault :=
  f.withContext { f.context with builtin := f.context.builtin.or (some name) }

/-- The function in which the fault was raised, unless one is known. -/
def orFunction (f : Fault) (name : String) : Fault :=
  f.withContext { f.context with function := f.context.function.or (some name) }

/-- The statement at which the fault was raised, unless one is known. -/
def orStatement (f : Fault) (index : Int) : Fault :=
  f.withContext { f.context with statement := f.context.statement.or (some index) }

/-- The innermost fault, which has a cause of its own. -/
def root : Fault → Fault
  | .plain c k => .plain c k
  | .traced _ inner _ => inner.root

/-- The cause at the root of a fault. -/
def cause : Fault → Cause
  | .plain c _ => c
  | .traced _ inner _ => inner.cause

/-- Whether the fault ended a running program. -/
def isFatal (f : Fault) : Bool := f.cause.isFatal

/-- The lines of the traceback, those of inner faults first. -/
def traceLines : Fault → String
  | .plain _ _ => ""
  | .traced frames inner _ => inner.traceLines ++ String.join (frames.map Frame.line)

/-- The names of the active functions, those of the outer fault first. -/
def functions : Fault → List String
  | .plain _ _ => []
  | .traced frames inner _ => frames.map (·.function) ++ inner.functions

/-- The text of the fault at the root, with its context. -/
def rootMessage : Fault → String
  | .plain c k => c.message ++ k.text
  | .traced _ inner _ => inner.rootMessage

/-- The text of a fault. -/
def message : Fault → String
  | .plain c k => c.message ++ k.text
  | .traced frames inner k =>
    "Traceback:\n" ++ (Fault.traced frames inner k).traceLines ++ inner.rootMessage

end Fault

end QuakeVm
