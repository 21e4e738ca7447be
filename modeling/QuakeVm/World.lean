import QuakeVm.Buffer
import QuakeVm.Cvar
import QuakeVm.Extension
import QuakeVm.Files
import QuakeVm.Log
import QuakeVm.Search

/-!
# The world around programs

What both programs of a host share: variables, the tables of files, searches and string buffers, the
disk, the console, and the log.
-/

namespace QuakeVm

/-- What programs share. -/
structure World where
  cvars : Cvars
  files : FileTable
  searches : SearchTable
  buffers : BufferTable
  sandbox : Sandbox
  disk : Disk
  /-- The commands of the console. -/
  commands : List String := []
  /-- What programs printed. -/
  output : Bytes := []
  /-- The commands that programs asked for. -/
  commandText : Bytes := []
  /-- The variables that programs changed and not all programs have been told of. -/
  changed : List String := []
  /-- The extensions that programs asked about. -/
  queried : List String := []
  /-- The program that runs. -/
  active : Option Role := none
  log : Log := {}
  seed : StdGen := mkStdGen 0
  /-- Seconds since 1970. -/
  now : Int := 0

namespace World

/-- The world of a game directory. -/
def new (directory : String) (disk : Disk) : World where
  cvars := Extension.register .base
  files := .empty 0
  searches := .new
  buffers := .new
  sandbox := ⟨directory⟩
  disk := disk

/-- The world with one more record. -/
def record (w : World) (level : Level) (text : String) : World :=
  { w with log := w.log.add level fun _ => text }

/-- The world with one more caution. -/
def caution (w : World) (text : String) : World := { w with log := w.log.caution text }

/-- Whether an extension can be used, and the world with a record about a hidden one. -/
def queryExtension (w : World) (name : String) : Bool × World :=
  match Extension.query w.cvars name with
  | .unknown => (false, w)
  | .available => (true, w)
  | .hidden => (false, w.record .info (Extension.hiddenText name))

/-- Set a variable; whether its text changed. A refusal is a caution. -/
def setCvar (w : World) (name text : String) : Bool × World :=
  match w.cvars.set name text with
  | .error refusal => (false, w.caution refusal.message)
  | .ok (changed, cvars) => (changed, { w with cvars })

/-- What a question about an open file gives; a refusal is a caution. -/
def askFile (w : World) (answer : Except FileRefusal Nat) : Option Nat × World :=
  match answer with
  | .error refusal => (none, w.caution refusal.message)
  | .ok n => (some n, w)

/-- The size of an open file. -/
def fileSize (w : World) (owner : Role) (handle : Int) : Option Nat × World :=
  w.askFile (w.files.fileSize owner handle)

/-- The number of bytes of an open file that have not been read. -/
def fileRemaining (w : World) (owner : Role) (handle : Int) : Option Nat × World :=
  w.askFile (w.files.fileRemaining owner handle)

/-- The world with something printed. -/
def print (w : World) (s : Bytes) : World := { w with output := w.output ++ s }

end World

end QuakeVm
