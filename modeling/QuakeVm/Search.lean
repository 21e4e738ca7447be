import QuakeVm.Limits
import QuakeVm.Ownership
import QuakeVm.Sandbox

/-!
# Searching for files

A search lists the files that a program could read and whose names match a pattern, by name. A file
in the data directory hides one of the same name in the game directory.
-/

namespace QuakeVm

/-- A file found by a search. -/
structure FoundFile where
  name : String
  size : Nat
  modified : Int
  deriving Repr, DecidableEq

namespace FoundFile

/-- A file found below a directory, by its name from there. -/
def ofEntry (e : Disk.Entry) : FoundFile where
  name := String.intercalate "/" e.steps
  size := e.size
  modified := e.modified

/-- The files below a directory whose names are wanted. -/
def below (d : Disk) (directory : String) (wanted : String → Bool) : List FoundFile :=
  match d.locate directory with
  | .ok p => ((d.filesBelow p).map ofEntry).filter fun f => wanted f.name
  | .error _ => []

/-- The files that a program could read and whose names match, by name. -/
def search (s : Sandbox) (d : Disk) (m : Glob.Matcher) : List FoundFile :=
  let first := below d s.data m.accepts
  let second := below d s.directory fun name =>
    Sandbox.fallbackAllowed name && m.accepts name && !first.any (·.name == name)
  (first ++ second).mergeSort fun f g => f.name ≤ g.name

end FoundFile

/-- The searches of both programs. -/
abbrev SearchTable := OwnedTable (List FoundFile)

namespace SearchTable

/-- A table without searches. -/
def new : SearchTable := .empty Limits.searches

/-- The files of a search, for an operation; the text about a misused handle otherwise. -/
def find (t : SearchTable) (owner : Role) (handle : Int) (operation : String) :
    Except String (List FoundFile) :=
  match t.get owner handle with
  | .ok files => .ok files
  | .error m => .error (m.message operation "search handle" handle)

/-- One file of a search. -/
def file (t : SearchTable) (owner : Role) (handle index : Int) (operation : String) :
    Except String FoundFile :=
  match t.find owner handle operation with
  | .error e => .error e
  | .ok files =>
    match if index < 0 then none else files[index.toNat]? with
    | some f => .ok f
    | none => .error s!"{operation}: index {index} out of range for search handle {handle}"

/-- Why a search does not begin. -/
inductive Refusal where
  | forbidden (pattern : String)
  | full
  | badPattern (pattern : String) (error : Glob.Error)
  | nothing (pattern : String)

/-- The caution about a search that does not begin. That nothing was found is no reason for one. -/
def Refusal.caution? : Refusal → Option String
  | .forbidden pattern => some s!"search_begin: rejected unsafe pattern \"{pattern}\""
  | .full => some s!"search_begin: all {Limits.searches} search handles are in use"
  | .badPattern pattern error =>
    some s!"search_begin: bad pattern \"{pattern}\": {error.report pattern}"
  | .nothing _ => none

/-- The table with a new search, its handle, and the number of files it found. -/
def start (t : SearchTable) (s : Sandbox) (d : Disk) (owner : Role) (pattern : String)
    (ignoreCase : Bool) : Except Refusal (Nat × Nat × SearchTable) :=
  if !isSafeName pattern then .error (.forbidden pattern)
  else
    match t.free? with
    | none => .error .full
    | some i =>
      match Glob.Matcher.ofPattern { separator := true, ignoreCase } pattern with
      | .error e => .error (.badPattern pattern e)
      | .ok m =>
        match FoundFile.search s d m with
        | [] => .error (.nothing pattern)
        | files => .ok (i, files.length, t.put i owner files)

end SearchTable

end QuakeVm
