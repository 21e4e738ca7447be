import QuakeVm.Disk.Basic
import QuakeVm.Glob.Match

/-!
# The sandbox

Programs name files relative to the data directory of a game. Reading also finds a few kinds of files
in the game directory itself. A name that could lead out of the data directory is rejected before
the disk is asked.
-/

namespace QuakeVm

/-- Whether two dots follow each other in a text. -/
def hasDoubleDot : List Char → Bool
  | '.' :: '.' :: _ => true
  | _ :: rest => hasDoubleDot rest
  | [] => false

/-- Whether a program may use a name at all. -/
def isSafeName (name : String) : Bool :=
  let cs := name.toList
  !(cs.isEmpty || cs.contains ':' || cs.contains '\\' || cs.head? == some '/' || hasDoubleDot cs)

/-- Why a program does not get a file. -/
inductive PathRefusal where
  | forbidden (name : String)
  | missing
  | blocked (directory : String) (error : DiskError)
  deriving Repr, DecidableEq

/-- The caution about a refusal. That a file is missing is no reason for one. -/
def PathRefusal.caution? : PathRefusal → Option String
  | .forbidden name => some s!"rejected unsafe file name \"{name}\""
  | .missing => none
  | .blocked directory error => some s!"cannot create {directory}: {error.detail}"

/-- The game directory. -/
structure Sandbox where
  directory : String
  deriving Repr, DecidableEq

namespace Sandbox

/-- What can be read from the game directory; a star stays within one directory. -/
def fallbackPatterns : List String := ["configs/*.cfg", "particles/*", "huds/*", "models/*"]

/-- The patterns, ready to match names. -/
def fallbackMatchers : List Glob.Matcher :=
  fallbackPatterns.filterMap fun p => (Glob.Matcher.ofPattern { separator := true } p).toOption

/-- Whether a file can be read from the game directory. -/
def fallbackAllowed (name : String) : Bool := fallbackMatchers.any (·.accepts name)

/-- The data directory. -/
def data (s : Sandbox) : String := Path.join s.directory "data"

/-- The path of a name in the data directory. -/
def dataPath (s : Sandbox) (name : String) : Except PathRefusal String :=
  if isSafeName name then .ok (Path.join s.data name) else .error (.forbidden name)

/-- The path to read a name from: the file in the data directory, or else one of those that can be
read from the game directory. -/
def readPath (s : Sandbox) (d : Disk) (name : String) : Except PathRefusal String :=
  match s.dataPath name with
  | .error e => .error e
  | .ok path =>
    if d.isFile path then .ok path
    else if fallbackAllowed name && d.isFile (Path.join s.directory name) then
      .ok (Path.join s.directory name)
    else .error .missing

/-- The path to write a name to, and the disk with the directories that it needs. -/
def writePath (s : Sandbox) (d : Disk) (name : String) : Except PathRefusal (String × Disk) :=
  match s.dataPath name with
  | .error e => .error e
  | .ok path =>
    match Path.parentBack? (Path.back path) with
    | none => .ok (path, d)
    | some parent =>
      match d.makeDirectories parent with
      | .ok d => .ok (path, d)
      | .error e => .error (.blocked (Path.ofBack parent) e)

end Sandbox

end QuakeVm
