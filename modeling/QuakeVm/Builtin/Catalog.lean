import QuakeVm.Builtin.Primitive
import QuakeVm.Limits
import QuakeVm.Role

/-!
# Catalogues of builtin functions

A program names a builtin by a number. Some numbers are documented and shared with other engines. A
builtin without one gets the highest number that is left, counted down from the end of the table, so
such numbers can change whenever the list does.

`Catalog.ofEntries` takes the entries one by one and refuses a name or a documented number that occurs a
second time. Whether the assigned numbers have reached the documented ones is seen at the end.
-/

namespace QuakeVm

/-- Which programs have a builtin. -/
inductive Provider where
  | nobody
  | both (p : Primitive)
  | server (p : Primitive)
  | client (p : Primitive)
  deriving Repr, DecidableEq

namespace Provider

/-- What a program of a role gets. -/
def for? : Provider → Role → Option Primitive
  | .nobody, _ => none
  | .both p, _ => some p
  | .server p, .server => some p
  | .server _, .client => none
  | .client p, .client => some p
  | .client _, .server => none

/-- Whether some program has the builtin. -/
def isSomeone (p : Provider) : Bool := p != .nobody

end Provider

/-- What is said about a builtin: its name, who has it, its documented number or zero, its type, what
it does, and whether it does only a part of that. -/
structure Entry where
  name : String
  provider : Provider
  documented : Nat
  signature : String
  description : String := ""
  stub : Bool := false
  deriving Repr, DecidableEq

/-- A builtin with its number. -/
structure Builtin where
  entry : Entry
  number : Nat
  deriving Repr, DecidableEq

namespace Builtin

/-- Whether a program of a role has the builtin. -/
def isFor (b : Builtin) (role : Role) : Bool := (b.entry.provider.for? role).isSome

/-- Whether the builtin does not belong to the base set. -/
def isExtension (b : Builtin) : Bool := Limits.baseBuiltins ≤ b.number

/-- The type of the result. -/
def result (b : Builtin) : String :=
  String.ofList (b.entry.signature.toList.takeWhile (· != '('))

/-- The list of parameters with its parentheses. -/
def parameters (b : Builtin) : String :=
  match b.entry.signature.toList.dropWhile (· != '(') with
  | [] => "()"
  | l => String.ofList l

/-- A short description for developers. -/
def describe (b : Builtin) : String :=
  "Builtin \x7b name: \"" ++ b.entry.name ++ s!"\", number: {b.number}, server: {b.isFor .server}"
    ++ s!", client: {b.isFor .client}, stub: {b.entry.stub}" ++ " \x7d"

end Builtin

/-- Builtins with their numbers. -/
structure Catalog where
  builtins : List Builtin
  deriving Repr, DecidableEq

namespace Catalog

/-- The highest number. -/
def highest : Nat := Limits.builtins - 1

/-- Numbers for builtins; those without a documented one count down from `next`. -/
def assign (next : Nat) : List Entry → List Builtin
  | [] => []
  | e :: rest =>
    if e.documented != 0 then ⟨e, e.documented⟩ :: assign next rest
    else ⟨e, next⟩ :: assign (next - 1) rest

/-- Why a list of entries makes no catalogue. -/
inductive Refusal where
  | nameTaken (name : String)
  | numberTaken (number : Nat)
  | numbersUsedUp
  | numbersOverlap
  deriving Repr, DecidableEq

/-- A catalogue in the making: the builtins that have their numbers, and the number of the next builtin
without a documented one. -/
structure Draft where
  builtins : List Builtin := []
  next : Nat := highest
  deriving Repr, DecidableEq

namespace Draft

/-- One more builtin. -/
def add (d : Draft) (e : Entry) : Except Refusal Draft :=
  if d.builtins.any (·.entry.name == e.name) then .error (.nameTaken e.name)
  else if e.documented != 0 then
    if d.builtins.any (·.entry.documented == e.documented) then .error (.numberTaken e.documented)
    else .ok { d with builtins := d.builtins ++ [⟨e, e.documented⟩] }
  else if d.next == 0 then .error .numbersUsedUp
  else .ok { builtins := d.builtins ++ [⟨e, d.next⟩], next := d.next - 1 }

/-- The highest documented number, or zero if there is none. -/
def highestDocumented (d : Draft) : Nat := (d.builtins.map (·.entry.documented)).foldl Nat.max 0

end Draft

/-- The catalogue of a list. -/
def ofEntries (entries : List Entry) : Except Refusal Catalog :=
  match entries.foldlM Draft.add {} with
  | .error e => .error e
  | .ok d => if d.highestDocumented ≤ d.next then .ok ⟨d.builtins⟩ else .error .numbersOverlap

/-- The builtin of a number. -/
def lookup? (c : Catalog) (number : Nat) : Option Builtin :=
  c.builtins.find? (·.number == number)

/-- The builtin of a name. -/
def find? (c : Catalog) (name : String) : Option Builtin :=
  c.builtins.find? (·.entry.name == name)

end Catalog

end QuakeVm
