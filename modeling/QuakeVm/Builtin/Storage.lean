import QuakeVm.Calendar
import QuakeVm.Machine.Action

/-!
# Files, searches and string buffers

Builtins on the tables that programs share. Misuse of a handle is a caution and gives a result that
says so; it never ends a program.
-/

namespace QuakeVm.Builtins

open QuakeVm.Action

/-- What a computation gives, if it gives something; a refusal is a caution. -/
def orCaution {α : Type} : Except String α → Action (Option α)
  | .ok a => return some a
  | .error text => do
    caution text
    return none

/-! ## Files -/

/-- The table of open files changed, or the caution about a refusal. -/
def orRefusal {α : Type} (x : Except FileRefusal α) : Action (Option α) :=
  orCaution (x.mapError FileRefusal.message)

/-- The path of a file to open, if there is one. Directories that writing needs are made. -/
def openPath? (name : String) (mode : FileMode) : Action (Option String) := do
  let w ← world
  let refuse (r : PathRefusal) : Action (Option String) := do
    if let some text := r.caution? then caution text
    record .debug fun _ => s!"fopen: cannot find {name}"
    return none
  match mode with
  | .read =>
    match w.sandbox.readPath w.disk name with
    | .ok path => return some path
    | .error r => refuse r
  | .append | .write =>
    match w.sandbox.writePath w.disk name with
    | .ok (path, disk) =>
      modifyWorld fun w => { w with disk }
      return some path
    | .error r => refuse r

/-- The place of a file that has been opened, and the disk with it. Writing anew empties the file. -/
def openPlace (w : World) (path : String) : FileMode → Except DiskError (Place × Disk)
  | .read => (w.disk.locate path).map (·, w.disk)
  | .append => w.disk.create path w.now
  | .write => (w.disk.create path w.now).map fun (p, d) => (p, d.set p (.file [] w.now))

/-- Open a file; the handle, or none. -/
def openFile (name : String) (mode : FileMode) : Action (Option Nat) := do
  match ← openPath? name mode with
  | none => return none
  | some path =>
    let w ← world
    match openPlace w path mode with
    | .error e =>
      record .debug fun _ => s!"fopen: {path}: {e.detail}"
      return none
    | .ok (place, disk) =>
      let size := (disk.contentAt place).length
      let (handle, files) := w.files.insert (← role) { name, place, mode, size }
      modifyWorld fun w => { w with files, disk }
      record .trace fun _ => s!"fopen {name} ({mode.name}) -> {handle}"
      return some handle

/-- Open a file. -/
def fopen : Action Unit := do
  let name := Text.lossy (← textArgument 0)
  let mode ← singleArgument 1
  match FileMode.ofSingle? mode with
  | none =>
    caution s!"fopen: {name}: invalid mode {Number.shortestText mode}"
    returnInteger (-1)
  | some mode =>
    match ← openFile name mode with
    | some handle => returnInteger handle
    | none => returnInteger (-1)

/-- Close a file; whether there was one to close. -/
def closeFile (handle : Int) : Action Bool := do
  match ← orRefusal ((← world).files.close (← role) handle) with
  | none => return false
  | some files =>
    modifyWorld fun w => { w with files }
    return true

/-- Close a file. -/
def fclose : Action Unit := do discard (closeFile (← integerArgument 0))

/-- The next line of a file, if there is one. -/
def nextLine (handle : Int) : Action (Option Bytes) := do
  let w ← world
  match ← orRefusal (w.files.gets w.disk (← role) handle) with
  | none => return none
  | some (line, files) =>
    modifyWorld fun w => { w with files }
    return line

/-- The next line of a file. -/
def fgets : Action Unit := do returnText? (← nextLine (← integerArgument 0))

/-- Write to a file; whether it was written. -/
def writeFile (handle : Int) (s : Bytes) : Action Bool := do
  let w ← world
  match ← orRefusal (w.files.write w.disk (← role) handle s w.now) with
  | none => return false
  | some (files, disk) =>
    modifyWorld fun w => { w with files, disk }
    return true

/-- Write strings to a file. -/
def fputs : Action Unit := do
  let handle ← integerArgument 0
  let s ← textFrom 1
  discard (writeFile handle s)

/-! ## Searches -/

/-- Begin a search; the handle, or none. -/
def startSearch (pattern : String) (ignoreCase quiet : Bool) : Action (Option Nat) := do
  let w ← world
  match w.searches.start w.sandbox w.disk (← role) pattern ignoreCase with
  | .ok (handle, count, searches) =>
    record .trace fun _ => s!"search_begin \"{pattern}\": {count} files -> {handle}"
    modifyWorld fun w => { w with searches }
    return some handle
  | .error refusal =>
    match refusal.caution? with
    | some text => caution text
    | none => if !quiet then record .debug fun _ => s!"search_begin: no files match \"{pattern}\""
    return none

/-- Begin a search. -/
def searchBegin : Action Unit := do
  let pattern := Text.lossy (← textArgument 0)
  let ignoreCase ← flagArgument 1
  let quiet ← flagArgument 2
  match ← startSearch pattern ignoreCase quiet with
  | some handle => returnInteger handle
  | none => returnInteger (-1)

/-- The files of a search. -/
def findSearch (handle : Int) (operation : String) : Action (Option (List FoundFile)) := do
  orCaution ((← world).searches.find (← role) handle operation)

/-- End a search; whether there was one to end. -/
def endSearch (handle : Int) : Action Bool := do
  if (← findSearch handle "search_end").isSome then
    modifyWorld fun w => { w with searches := w.searches.erase handle.toNat }
    return true
  else return false

/-- End a search. -/
def searchEnd : Action Unit := do discard (endSearch (← integerArgument 0))

/-- The number of files of a search. -/
def searchSize (handle : Int) : Action (Option Nat) := do
  return (← findSearch handle "search_getsize").map (·.length)

/-- The number of files of a search. -/
def searchGetsize : Action Unit := do
  match ← searchSize (← integerArgument 0) with
  | some n => returnInteger n
  | none => returnInteger (-1)

/-- A file of a search. -/
def searchFile (handle index : Int) (operation : String) : Action (Option FoundFile) := do
  orCaution ((← world).searches.file (← role) handle index operation)

/-- The file that two arguments name. -/
def foundFile (operation : String) : Action (Option FoundFile) := do
  let handle ← integerArgument 0
  let index ← integerArgument 1
  searchFile handle index operation

/-- The name of a file of a search. -/
def searchGetfilename : Action Unit := do
  returnText? ((← foundFile "search_getfilename").map fun f => Bytes.ofText f.name)

/-- The size of a file of a search. -/
def searchGetfilesize : Action Unit := do
  match ← foundFile "search_getfilesize" with
  | some f => returnInteger f.size
  | none => returnInteger 0

/-- The time at which a file of a search was changed. -/
def searchGetfilemtime : Action Unit := do
  returnText? ((← foundFile "search_getfilemtime").map fun f =>
    Bytes.ofText (Calendar.stamp f.modified))

/-! ## String buffers -/

/-- The buffer of a handle. -/
def findBuffer (handle : Int) (operation : String) : Action (Option Buffer) := do
  orCaution ((← world).buffers.find (← role) handle operation)

/-- Change the content of a buffer. -/
def putBuffer (handle : Int) (b : Buffer) : Action Unit := do
  let owner ← role
  modifyWorld fun w => { w with buffers := w.buffers.replace owner handle b }

/-- A new buffer; the handle, or none. -/
def createBuffer : Action (Option Nat) := do
  match (← world).buffers.create? (← role) with
  | some (handle, buffers) =>
    modifyWorld fun w => { w with buffers }
    return some handle
  | none =>
    caution s!"buf_create: all {Limits.buffers} string buffers are in use"
    return none

/-- A new buffer. -/
def bufCreate : Action Unit := do
  match ← createBuffer with
  | some handle => returnInteger handle
  | none => returnInteger 0

/-- Delete a buffer; whether there was one. -/
def deleteBuffer (handle : Int) : Action Bool := do
  if (← findBuffer handle "buf_del").isSome then
    modifyWorld fun w => { w with buffers := w.buffers.delete handle }
    return true
  else return false

/-- Delete a buffer. -/
def bufDel : Action Unit := do discard (deleteBuffer (← integerArgument 0))

/-- The size of a buffer. -/
def bufferSize (handle : Int) : Action (Option Nat) := do
  return (← findBuffer handle "buf_getsize").map (·.size)

/-- The size of a buffer. -/
def bufGetsize : Action Unit := do
  match ← bufferSize (← integerArgument 0) with
  | some n => returnInteger n
  | none => returnInteger (-1)

/-- Put another content into a buffer; whether there was the buffer. The content is worked out from the
one that it has. -/
def changeBuffer (handle : Int) (operation : String) (f : Buffer → Buffer) : Action Bool := do
  match ← findBuffer handle operation with
  | none => return false
  | some b =>
    putBuffer handle (f b)
    return true

/-- Copy a buffer; whether there were both. -/
def copyBuffer (source target : Int) : Action Bool := do
  match ← findBuffer source "buf_copy" with
  | none => return false
  | some b =>
    if source == target then return true
    else changeBuffer target "buf_copy" fun _ => b

/-- Copy a buffer. -/
def bufCopy : Action Unit := do
  let source ← integerArgument 0
  let target ← integerArgument 1
  discard (copyBuffer source target)

/-- Sort a buffer; whether there was one. -/
def sortBuffer (handle length : Int) (backward : Bool) : Action Bool :=
  changeBuffer handle "buf_sort" (·.sort length backward)

/-- Sort a buffer. -/
def bufSort : Action Unit := do
  let handle ← integerArgument 0
  let length ← integerArgument 1
  let backward ← flagArgument 2
  discard (sortBuffer handle length backward)

/-- The strings of a buffer, joined. -/
def implodeBuffer (handle : Int) (glue : Bytes) : Action (Option Bytes) := do
  match ← findBuffer handle "buf_implode" with
  | none => return none
  | some b =>
    let (s, complete) := b.implode glue
    if !complete then caution s!"buf_implode: result truncated to {Limits.text} bytes"
    return some s

/-- Join the strings of a buffer. -/
def bufImplode : Action Unit := do
  let handle ← integerArgument 0
  let glue ← textArgument 1
  returnText? (← implodeBuffer handle glue)

/-- A string of a buffer. -/
def bufferString (handle index : Int) : Action (Option Bytes) := do
  return (← findBuffer handle "bufstr_get").bind (·.get? index)

/-- A string of a buffer. -/
def bufstrGet : Action Unit := do
  let handle ← integerArgument 0
  let index ← integerArgument 1
  returnText? (← bufferString handle index)

/-- Store a string in a buffer; whether there was room for it. -/
def storeString (handle : Int) (b : Buffer) (index : Nat) (s : Bytes) (operation : String) :
    Action Bool := do
  match b.set? index s with
  | some b =>
    putBuffer handle b
    return true
  | none =>
    caution (Buffer.tooHigh operation index)
    return false

/-- Set a string of a buffer; whether it was set. -/
def setString (handle index : Int) (s : Bytes) : Action Bool := do
  if index < 0 then
    caution s!"bufstr_set: negative index {index}"
    return false
  else
    match ← findBuffer handle "bufstr_set" with
    | none => return false
    | some b => storeString handle b index.toNat s "bufstr_set"

/-- Set a string of a buffer. -/
def bufstrSet : Action Unit := do
  let handle ← integerArgument 0
  let index ← integerArgument 1
  let s ← textArgument 2
  discard (setString handle index s)

/-- Add a string to a buffer; the index it was stored at, or none. -/
def addString (handle : Int) (s : Bytes) (atEnd : Bool) : Action (Option Nat) := do
  match ← findBuffer handle "bufstr_add" with
  | none => return none
  | some b =>
    let index := b.place atEnd
    if ← storeString handle b index s "bufstr_add" then return some index else return none

/-- Add a string to a buffer. -/
def bufstrAdd : Action Unit := do
  let handle ← integerArgument 0
  let s ← textArgument 1
  let atEnd ← flagArgument 2
  match ← addString handle s atEnd with
  | some index => returnInteger index
  | none => returnInteger (-1)

/-- Remove a string from a buffer; whether the index was in range. -/
def freeString (handle index : Int) : Action Bool := do
  match ← findBuffer handle "bufstr_free" with
  | none => return false
  | some b =>
    match b.remove? index with
    | none => return false
    | some b =>
      putBuffer handle b
      return true

/-- Remove a string from a buffer. -/
def bufstrFree : Action Unit := do
  let handle ← integerArgument 0
  let index ← integerArgument 1
  discard (freeString handle index)

/-- The content of a file that a program can read; nothing for others, with a record of why. -/
def readForBuffer (name : String) : Action (Option Bytes) := do
  let w ← world
  let failed (e : String) : Action (Option Bytes) := do
    record .debug fun _ => s!"buf_loadfile: {name}: {e}"
    return none
  match w.sandbox.readPath w.disk name with
  | .error r =>
    if let some text := r.caution? then caution text
    failed DiskError.notFound.kind
  | .ok path =>
    match w.disk.read path with
    | .ok content => return some content
    | .error e => failed e.detail

/-- Add the lines of a text to a buffer; whether there was room for all of them. -/
def addLines (handle : Int) (text : Bytes) : Action Bool := do
  match ← findBuffer handle "buf_loadfile" with
  | none => return false
  | some b =>
    let (b, full) := b.addAll (Buffer.lines text)
    putBuffer handle b
    if let some index := full then caution (Buffer.tooHigh "buf_loadfile" index)
    return full.isNone

/-- Add the lines of a file to a buffer. -/
def bufLoadfile : Action Unit := do
  let name := Text.lossy (← textArgument 0)
  let handle ← integerArgument 1
  match ← readForBuffer name with
  | none => returnFlag false
  | some content => returnFlag (← addLines handle content)

/-- The strings of a buffer from an index on; all of them without a count. -/
def bufferRange (handle : Int) (start : Nat) (count? : Option Nat) :
    Action (Option (List Bytes)) := do
  return (← findBuffer handle "buf_writefile").map (·.range start count?)

/-- Write lines to a file until one is refused; whether all were written. -/
def writeLines (handle : Int) : List Bytes → Action Bool
  | [] => return true
  | s :: rest => do
    if ← writeFile handle (s ++ [0x0a]) then writeLines handle rest else return false

/-- Write the strings of a buffer to a file. -/
def bufWritefile : Action Unit := do
  let file ← integerArgument 0
  let handle ← integerArgument 1
  let start := Number.toSize (← singleArgument 2)
  let count := Number.toSize (← singleArgument 3)
  let count? := if 3 < (← argumentCount) then some count else none
  match ← bufferRange handle start count? with
  | none => returnFlag false
  | some strings => returnFlag (← writeLines file strings)

/-- The matcher of a pattern; an empty pattern and one without a meaning match nothing in
particular. -/
def matcher? (pattern : Bytes) : Action (Option Glob.Matcher) := do
  if pattern.isEmpty then return none
  let text := Text.lossy pattern
  match Glob.Matcher.ofPattern {} text with
  | .ok m => return some m
  | .error e =>
    caution s!"buf_cvarlist: bad pattern \"{text}\": {e.report text}"
    return none

/-- Put strings into a buffer in the place of those it has; whether there was the buffer. -/
def replaceBuffer (handle : Int) (strings : List Bytes) (operation : String) : Action Bool :=
  changeBuffer handle operation fun _ => .ofList strings

/-- Fill a buffer with the names of variables. -/
def bufCvarlist : Action Unit := do
  let handle ← integerArgument 0
  let wanted ← matcher? (← textArgument 1)
  let unwanted ← matcher? (← textArgument 2)
  let names := (← world).cvars.names.filter fun name =>
    (wanted.map (·.accepts name)).getD true && !(unwanted.map (·.accepts name)).getD false
  discard (replaceBuffer handle (names.map Bytes.ofText) "buf_cvarlist")

end QuakeVm.Builtins
