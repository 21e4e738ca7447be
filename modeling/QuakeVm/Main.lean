import QuakeVm.CommandLine

/-!
# The commands as processes

The part of the real disk that a command can reach is read before it begins, and what it changed is
written when it has ended. The command itself is a function of what was read. Under the name `qcdump`
the process writes declarations; under any other name it runs functions of a program.
-/

namespace QuakeVm.Process

/-! ## The real disk -/

/-- The place of a path. -/
def placeOf (path : String) : Place :=
  let (p, steps) := Disk.start path
  steps.foldl (fun p s =>
    if s == "" || s == "." then p else if s == ".." then Disk.above p else p ++ [s]) p

/-- The paths of the directories above what a path leads to, and the path itself, the shortest
first. -/
def way (path : String) : List String :=
  let steps := Path.steps path
  (List.range steps.length).map fun n =>
    let head := String.intercalate "/" (steps.take (n + 1))
    if head.isEmpty then "/" else head

/-- A string of bytes as a byte array. -/
def byteArray (s : Bytes) : ByteArray := ⟨s.toArray⟩

/-- The file at a path of the real disk. -/
def readNode (path : String) : IO Node := do
  let content ← IO.FS.readBinFile path
  let data ← (System.mkFilePath [path]).metadata
  return .file content.toList data.modified.sec

/-- The disk with what the real disk has at a path. -/
def readAt (d : Disk) (path : String) : IO Disk := do
  let p := System.mkFilePath [path]
  let place := placeOf path
  if place == [] || place == Disk.root then return d
  else if ← p.isDir then return d.set place .directory
  else if ← p.pathExists then return d.set place (← readNode path)
  else return d

/-- The disk with everything that the real disk has at a path and below it. -/
partial def readBelow (d : Disk) (path : String) : IO Disk := do
  let mut d ← readAt d path
  let p := System.mkFilePath [path]
  if ← p.isDir then
    for entry in ← p.readDir do
      d ← readBelow d (Path.join path entry.fileName)
  return d

/-- The disk with what the real disk has on the way to a path. -/
def readWay (path : String) : IO Disk := (way path).foldlM readAt Disk.empty

/-- What changed at a path or below it, written to the real disk. -/
def writeBelow (path : String) (before after : Disk) : IO Unit :=
  for (place, node) in after.nodes do
    if before.nodes.lookup place != some node then
      if let some steps := Disk.below? (placeOf path) place then
        let target := steps.foldl Path.join path
        match node with
        | .directory => IO.FS.createDirAll target
        | .file content _ => IO.FS.writeBinFile target (byteArray content)

/-! ## Surroundings -/

/-- Seconds since 1970, by the clock of the real disk. -/
def currentTime : IO Int := do
  let (_, path) ← IO.FS.createTempFile
  let data ← path.metadata
  IO.FS.removeFile path
  return data.modified.sec

/-- The game directory of a call that names none. -/
def defaultDirectory : IO String := do
  let data ← IO.getEnv "XDG_DATA_HOME"
  let home ← IO.getEnv "HOME"
  let base := match data.filter Path.isAbsolute, home with
    | some data, _ => data
    | none, some home => Path.join home ".local/share"
    | none, none => "."
  return Path.join base "qcvm"

/-- What a command left behind, shown; its exit code. -/
def finish (o : Outcome) : IO UInt32 := do
  let output ← IO.getStdout
  output.write (byteArray o.output)
  output.flush
  IO.eprint o.errors
  return o.code

/-! ## The commands -/

/-- Run functions of a program. -/
def runFunctions (args : List String) : IO UInt32 := do
  let default ← defaultDirectory
  let now ← currentTime
  let seed ← IO.rand 0 0x80000000
  match CommandLine.parse {} args with
  | .error _ => finish (CommandLine.run default (World.new · .empty) .empty args)
  | .ok options =>
    let directory := options.directory default
    let disk ← readBelow (← readWay directory) directory
    let world (directory : String) : World :=
      { World.new directory disk with seed := mkStdGen seed, now }
    let outcome := CommandLine.run default world disk args
    writeBelow directory disk outcome.disk
    finish outcome

/-- Write declarations. -/
def writeDeclarations (args : List String) : IO UInt32 := do
  let now ← currentTime
  let path := args.headD ""
  let disk ← readWay path
  let outcome := CommandLine.dump disk now args
  writeBelow path disk outcome.disk
  finish outcome

end QuakeVm.Process

/-- The command under whose name the process was started. -/
def main (args : List String) : IO UInt32 := do
  if (← IO.appPath).fileName == some "qcdump" then QuakeVm.Process.writeDeclarations args
  else QuakeVm.Process.runFunctions args
