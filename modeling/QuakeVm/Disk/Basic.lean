import QuakeVm.Bytes
import QuakeVm.Disk.Path
import QuakeVm.Fault

/-!
# The disk

A disk is a tree of directories and files, kept as a list of places. There are no links, so a place
has one path without empty steps, `.` and `..`.

Following a path asks of every step but the last that it leads to a directory. A slash at the end
asks that of the last step too.

## Termination

`makeDirectories` goes to the parent, which has fewer steps (`Path.length_parentBack?_lt`).
-/

namespace QuakeVm

/-- A place on the disk: the names from the working directory down, or from `/` down. -/
abbrev Place := List String

/-- What stands at a place. -/
inductive Node where
  | directory
  | file (content : Bytes) (modified : Int)
  deriving Repr, DecidableEq

/-- A disk. -/
structure Disk where
  nodes : List (Place × Node)
  deriving Repr, DecidableEq

namespace Disk

/-- A disk without files. -/
def empty : Disk := ⟨[]⟩

/-- The place of the root directory. -/
def root : Place := ["/"]

/-- What stands at a place. The working directory and the root are always there. -/
def node? (d : Disk) (p : Place) : Option Node :=
  if p == [] || p == root then some .directory else d.nodes.lookup p

/-- Whether a directory stands at a place. -/
def isDirectoryAt (d : Disk) (p : Place) : Bool := d.node? p == some .directory

/-- The disk with something at a place. -/
def set (d : Disk) (p : Place) (n : Node) : Disk :=
  if (d.nodes.lookup p).isSome then ⟨d.nodes.map fun e => if e.1 == p then (p, n) else e⟩
  else ⟨d.nodes ++ [(p, n)]⟩

/-- The disk with a node some steps below a place, and with all directories on the way. -/
def install (d : Disk) (n : Node) (p : Place) : List String → Disk
  | [] => d.set p n
  | s :: rest =>
    (if (d.node? p).isSome then d else d.set p .directory).install n (p ++ [s]) rest

/-! ## Following paths -/

/-- The place above a place. There is none above the working directory and the root. -/
def above (p : Place) : Place := if p == root then p else p.dropLast

/-- The place that steps lead to. -/
def follow (d : Disk) (p : Place) : List String → Except DiskError Place
  | [] => .ok p
  | s :: rest =>
    if !d.isDirectoryAt p then .error .notDirectory
    else if s == "" || s == "." then d.follow p rest
    else if s == ".." then d.follow (above p) rest
    else if (d.node? (p ++ [s])).isSome then d.follow (p ++ [s]) rest
    else .error .notFound

/-- The place where following a path begins, and the steps to follow. -/
def start (path : String) : Place × List String :=
  let steps := Path.steps path
  if Path.isAbsolute path then (root, steps.drop 1) else ([], steps)

/-- The place that a path leads to. -/
def locate (d : Disk) (path : String) : Except DiskError Place :=
  if path.isEmpty then .error .notFound
  else d.follow (start path).1 (start path).2

/-- What a path leads to. -/
def at? (d : Disk) (path : String) : Option Node :=
  match d.locate path with
  | .ok p => d.node? p
  | .error _ => none

/-- Whether a path leads to a file. -/
def isFile (d : Disk) (path : String) : Bool :=
  match d.at? path with
  | some (.file _ _) => true
  | _ => false

/-- Whether a path leads to a directory. -/
def isDirectory (d : Disk) (path : String) : Bool := d.at? path == some .directory

/-- The content of a file. -/
def read (d : Disk) (path : String) : Except DiskError Bytes :=
  match d.locate path with
  | .error e => .error e
  | .ok p =>
    match d.node? p with
    | some (.file content _) => .ok content
    | some .directory => .error .isDirectory
    | none => .error .notFound

/-! ## Making things -/

/-- The place of the directory that is to hold the last step of a path, that step, and whether a
slash follows it. -/
def lastStep (d : Disk) (path : String) : Except DiskError (Place × String × Bool) :=
  let (p, steps) := start path
  match steps.reverse.dropWhile (· == "") with
  | [] => if path.isEmpty then .error .notFound else .ok (p, ".", true)
  | s :: rest =>
    match d.follow p rest.reverse with
    | .error e => .error e
    | .ok p =>
      if d.isDirectoryAt p then .ok (p, s, steps.getLast? == some "")
      else .error .notDirectory

/-- Whether a step leads to a directory that is there already. -/
def isDots (s : String) : Bool := s == "." || s == ".."

/-- The disk with a new directory. -/
def makeDirectory (d : Disk) (path : String) : Except DiskError Disk :=
  match d.lastStep path with
  | .error e => .error e
  | .ok (p, s, _) =>
    if isDots s || (d.node? (p ++ [s])).isSome then .error .exists_
    else .ok (d.set (p ++ [s]) .directory)

/-- The disk with a directory and all directories above it, given by their steps in reverse. -/
def makeDirectories (d : Disk) (back : List String) : Except DiskError Disk :=
  let path := Path.ofBack back
  if path.isEmpty then .ok d
  else
    match d.makeDirectory path with
    | .ok d => .ok d
    | .error .notFound =>
      match _h : Path.parentBack? back with
      | none => .error .notFound
      | some parent =>
        match d.makeDirectories parent with
        | .error e => .error e
        | .ok d =>
          match d.makeDirectory path with
          | .ok d => .ok d
          | .error e => if d.isDirectory path then .ok d else .error e
    | .error e => if d.isDirectory path then .ok d else .error e
termination_by back.length
decreasing_by exact Path.length_parentBack?_lt _h

/-- The place of a file that is to be written; a new file is empty. -/
def create (d : Disk) (path : String) (now : Int) : Except DiskError (Place × Disk) :=
  match d.lastStep path with
  | .error e => .error e
  | .ok (p, s, slash) =>
    if slash || isDots s then .error .isDirectory
    else
      match d.node? (p ++ [s]) with
      | some .directory => .error .isDirectory
      | some (.file _ _) => .ok (p ++ [s], d)
      | none => .ok (p ++ [s], d.set (p ++ [s]) (.file [] now))

/-! ## Files by place -/

/-- The content of the file at a place. -/
def contentAt (d : Disk) (p : Place) : Bytes :=
  match d.node? p with
  | some (.file content _) => content
  | _ => []

/-- Bytes written over others from an offset on; a gap is filled with zeros. -/
def overwrite (content : Bytes) (offset : Nat) (data : Bytes) : Bytes :=
  content.take offset ++ List.replicate (offset - content.length) 0 ++ data
    ++ content.drop (offset + data.length)

/-- The disk with bytes written to the file at a place. -/
def writeAt (d : Disk) (p : Place) (offset : Nat) (data : Bytes) (now : Int) : Disk :=
  if data.isEmpty then d
  else d.set p (.file (overwrite (d.contentAt p) offset data) now)

/-- A file found below a directory: its steps from there, its size, and when it was changed. -/
structure Entry where
  steps : List String
  size : Nat
  modified : Int
  deriving Repr, DecidableEq

/-- The steps from one place down to another. What is below the root is not below the working
directory. -/
def below? : Place → Place → Option (List String)
  | [], q => if q.head? == some "/" then none else some q
  | _ :: _, [] => none
  | a :: p, b :: q => if a == b then below? p q else none

/-- All files at a place or below it. -/
def filesBelow (d : Disk) (p : Place) : List Entry :=
  d.nodes.filterMap fun (q, n) =>
    match n, below? p q with
    | .file content modified, some steps => some ⟨steps, content.length, modified⟩
    | _, _ => none

end Disk

end QuakeVm
