import QuakeVm.Limits
import QuakeVm.Number.Decimal
import QuakeVm.Number.Scan

/-!
# Configuration variables

A variable has a name, a text, and the number that the text begins with. Texts change only through
`set`, which keeps text and number together.
-/

namespace QuakeVm

/-- A configuration variable. -/
structure Cvar where
  name : String
  text : String
  value : Float32
  default : String
  flags : UInt32
  description : String

namespace Cvar

/-- The variable is kept between runs. -/
def archived : UInt32 := 0x1

/-- The variable cannot be set. -/
def readOnly : UInt32 := 0x20

/-- The machine itself registered the variable. -/
def registered : UInt32 := 0x80

/-- A program or a user made the variable. -/
def userDefined : UInt32 := 0x8000

/-- A program follows the variable. -/
def followed : UInt32 := 0x10000

/-- Whether a variable has a flag. -/
def has (v : Cvar) (flag : UInt32) : Bool := v.flags &&& flag != 0

/-- The number that a text begins with. -/
def valueOf (text : String) : Float32 := Number.scanSingle (Bytes.ofText text)

/-- A new variable. -/
def new (name default : String) (flags : UInt32) (description : String) : Cvar where
  name
  text := default
  value := valueOf default
  default
  flags
  description

/-- The variable with another text. -/
def withText (v : Cvar) (text : String) : Cvar := { v with text, value := valueOf text }

/-- What programs are told about a variable: it exists (1), is archived (2), belongs to the machine
(8), has a description (16), is read-only (32). -/
def typeBits (v : Cvar) : Nat :=
  1 + (if v.has archived then 2 else 0) + (if v.has userDefined then 0 else 8)
    + (if v.description.isEmpty then 0 else 16) + (if v.has readOnly then 32 else 0)

end Cvar

/-- The variables of a host, in the order in which they were made. -/
structure Cvars where
  vars : List Cvar

namespace Cvars

/-- The variable of a name. -/
def get? (c : Cvars) (name : String) : Option Cvar := c.vars.find? (·.name == name)

/-- Whether there is a variable of a name. -/
def contains (c : Cvars) (name : String) : Bool := (c.get? name).isSome

/-- The number of a variable; zero if there is none. -/
def value (c : Cvars) (name : String) : Float32 := ((c.get? name).map Cvar.value).getD 0

/-- The variables with one changed. -/
def modify (c : Cvars) (name : String) (f : Cvar → Cvar) : Cvars :=
  ⟨c.vars.map fun v => if v.name == name then f v else v⟩

/-- The variables with a new one, unless there is one of its name. -/
def register (c : Cvars) (name default : String) (flags : UInt32) (description : String) : Cvars :=
  if c.contains name then c else ⟨c.vars ++ [.new name default flags description]⟩

/-- Why a variable cannot be set. -/
inductive Refusal where
  | unknown (name : String)
  | readOnly (name : String)
  deriving Repr, DecidableEq

/-- The text of a refusal. -/
def Refusal.message : Refusal → String
  | .unknown name => s!"Cvar_Set: variable {name} not found"
  | .readOnly name => s!"{name} is read-only"

/-- The variables with one set, and whether its text changed. -/
def set (c : Cvars) (name text : String) : Except Refusal (Bool × Cvars) :=
  match c.get? name with
  | none => .error (.unknown name)
  | some v =>
    if v.has Cvar.readOnly then .error (.readOnly name)
    else if v.text == text then .ok (false, c)
    else .ok (true, c.modify name (·.withText text))

/-- The variables with one that a program follows; a new one has the given default. -/
def follow (c : Cvars) (name default : String) : Cvars :=
  (c.register name default Cvar.userDefined "").modify name fun v =>
    { v with flags := v.flags ||| Cvar.followed }

/-- The names of all variables in order. -/
def names (c : Cvars) : List String := (c.vars.map (·.name)).mergeSort (· ≤ ·)

/-- The variables that the machine itself reads. -/
def base : Cvars :=
  ((Cvars.mk []).register "pr_checkextension" "1" Cvar.registered
      "0 disables server extensions, 2 warns about every lazily bound builtin"
    |>.register "developer" "0" Cvar.registered "print dprint output"
    |>.register "pr_runaway" (Number.asText (Number.decimal Limits.statements)) Cvar.registered
      "statements a single call may execute")

end Cvars

end QuakeVm
