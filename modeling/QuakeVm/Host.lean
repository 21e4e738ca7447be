import QuakeVm.Machine.Execute
import QuakeVm.Machine.Load
import QuakeVm.Program.Codec

/-!
# Hosts

A host runs up to two programs in one world. Only one of them is active at a time: running a program
while another one is active is refused, and after every operation the program that was active before
it is active again.

An operation is a sequence of deeds. Who makes a role active holds a guard, and lets go of it when the
role that was active before is to be so again.
-/

namespace QuakeVm

/-- A world with its programs. -/
structure Host where
  world : World
  server : Option Machine := none
  client : Option Machine := none

namespace Host

/-- The host of a game directory. -/
def new (directory : String) (disk : Disk) : Host := { world := .new directory disk }

/-- The machine of a role. -/
def machine? (h : Host) : Role → Option Machine
  | .server => h.server
  | .client => h.client

/-- The host with another machine of a role. -/
def setMachine (h : Host) (role : Role) (m : Option Machine) : Host :=
  match role with
  | .server => { h with server := m }
  | .client => { h with client := m }

/-- The host in another world. -/
def mapWorld (h : Host) (f : World → World) : Host := { h with world := f h.world }

/-! ## The active program -/

/-- A role that was active, in words for developers. -/
def previousText : Option Role → String
  | none => "None"
  | some .server => "Some(Server)"
  | some .client => "Some(Client)"

/-- Make a role active, or none. One cannot take over from another. -/
def switch (w : World) (role? : Option Role) : Except Cause Unit × World :=
  match w.active, role? with
  | some active, some requested =>
    (.error (.alreadyActive active requested), w.record .error
      s!"cannot activate the {requested.name} VM while the {active.name} VM is active")
  | _, _ => (.ok (), { w with active := role? })

/-- Make a role active where none is. -/
def activate (w : World) (role : Role) : Except Cause Unit × World :=
  match switch w (some role) with
  | (.ok (), w) => (.ok (), w.record .trace s!"enter {role.name} VM")
  | (.error e, w) => (.error e, w)

/-- Make a role active, whatever was. -/
def force (w : World) (role : Role) : World :=
  { w with active := some role }.record .trace
    s!"force {role.name} VM (was {previousText w.active})"

/-- Make active again what was before. -/
def restore (w : World) (previous : Option Role) : World := { w with active := previous }

/-! ## Machines at work -/

/-- What an action of a role's machine does to a host. -/
def act {α : Type} (h : Host) (role : Role) (action : Action α) : Except Fault α × Host :=
  match h.machine? role with
  | none => (.error (Cause.noProgram role), h)
  | some m =>
    match action ⟨m, h.world⟩ with
    | .ok a s => (.ok a, { h with world := s.world }.setMachine role (some s.machine))
    | .error f s => (.error f, { h with world := s.world }.setMachine role (some s.machine))

/-- The world without what a program left behind, and the record about it. -/
def shutDown (w : World) (m : Machine) : World :=
  let role := m.role
  let zoned := m.strings.unzoneAll.1
  let w := if 0 < zoned then w.record .debug s!"released {zoned} zoned strings" else w
  let files := w.files.owned role
  let w := files.foldl
    (fun w f => w.record .debug s!"closing {f.name} left open by the {role.name} VM") w
  let searches := w.searches.count role
  let w := if 0 < searches then
      w.record .debug s!"released {searches} searches of the {role.name} VM"
    else w
  let buffers := w.buffers.count role
  let w := if 0 < buffers then
      w.record .debug s!"released {buffers} string buffers of the {role.name} VM"
    else w
  { w with
    files := w.files.release role
    searches := w.searches.release role
    buffers := w.buffers.release role }.record .info
      (s!"{role.name} VM shut down ({zoned} zoned strings, {files.length} files, "
        ++ s!"{searches} searches, {buffers} buffers released)")

end Host

/-! ## Deeds -/

/-- A guard: it holds what was active before, or it was refused. -/
inductive Guard where
  | refused
  | holds (previous : Option Role)
  deriving Repr, DecidableEq

/-- A host with the guards that are held, the latest first. -/
structure Scene where
  host : Host
  guards : List Guard := []

/-- A part of an operation. -/
inductive Deed where
  /-- Make a role active where none is. -/
  | enter (role : Role)
  /-- Make a role active, whatever was. -/
  | force (role : Role)
  /-- Let go of the latest guard. -/
  | drop
  /-- Run a function of a role's program. -/
  | run (role : Role) (name : String)
  /-- Write the global of a role's program that follows a variable. -/
  | update (role : Role) (name : String)
  /-- Release what a role's program owns, and the program. -/
  | shutDown (role : Role)
  /-- Put a program in the place of a role. -/
  | install (role : Role) (p : Program)
  | assign (name text : String)
  /-- Clear the list of the variables that programs changed. -/
  | clear
  | note (level : Level) (text : String)

namespace Scene

/-- The role that is active. -/
def active (s : Scene) : Option Role := s.host.world.active

/-- The scene with another host. -/
def mapHost (s : Scene) (f : Host → Host) : Scene := { s with host := f s.host }

/-- The answer to a deed, and the scene after it. Only a guard can be refused and a function fail. -/
def attempt (s : Scene) : Deed → Except Fault Unit × Scene
  | .enter role =>
    match Host.activate s.host.world role with
    | (.ok (), w) => (.ok (), ⟨{ s.host with world := w }, .holds s.active :: s.guards⟩)
    | (.error e, w) => (.error e, ⟨{ s.host with world := w }, .refused :: s.guards⟩)
  | .force role => (.ok (), ⟨s.host.mapWorld (Host.force · role), .holds s.active :: s.guards⟩)
  | .drop =>
    match s.guards with
    | [] => (.ok (), s)
    | .refused :: rest => (.ok (), { s with guards := rest })
    | .holds previous :: rest => (.ok (), ⟨s.host.mapWorld (Host.restore · previous), rest⟩)
  | .run role name =>
    match s.host.machine? role with
    | none => (.error (Cause.noProgram role), s)
    | some m =>
      let (result, host) := s.host.act role do execute (← Action.lift (m.findFunction name))
      (result, { s with host })
  | .update role name =>
    (.ok (), s.mapHost fun h =>
      h.setMachine role ((h.machine? role).map (·.update h.world.cvars name)))
  | .shutDown role =>
    match s.host.machine? role with
    | none => (.ok (), s)
    | some m => (.ok (), s.mapHost fun h => (h.mapWorld (Host.shutDown · m)).setMachine role none)
  | .install role p =>
    let a := Activation.load role p s.host.world
    (.ok (), s.mapHost fun h => { h with world := a.world }.setMachine role (some a.machine))
  | .assign name text => (.ok (), s.mapHost (·.mapWorld fun w => (w.setCvar name text).2))
  | .clear => (.ok (), s.mapHost (·.mapWorld fun w => { w with changed := [] }))
  | .note level text => (.ok (), s.mapHost (·.mapWorld (·.record level text)))

/-- The scene after a deed. -/
def carryOut (s : Scene) (d : Deed) : Scene := (s.attempt d).2

/-- The scene after deeds. -/
def carryOutAll (s : Scene) (deeds : List Deed) : Scene := deeds.foldl carryOut s

/-- The answer to deeds, and the scene after them. A fault does not keep the others from being done. -/
def attemptAll (s : Scene) : List Deed → Except Fault Unit × Scene
  | [] => (.ok (), s)
  | d :: rest =>
    match s.attempt d with
    | (.ok (), s) => s.attemptAll rest
    | (.error e, s) => (.error e, s.carryOutAll rest)

end Scene

namespace Host

/-- The host after deeds that begin without guards. -/
def after (h : Host) (deeds : List Deed) : Host := (Scene.carryOutAll ⟨h, []⟩ deeds).host

/-! ## Variables -/

/-- The program of a role, if there is one, is told of variables while it is active. -/
def informDeeds (h : Host) (names : List String) (role : Role) : List Deed :=
  if (h.machine? role).isSome then .force role :: names.map (.update role ·) ++ [.drop] else []

/-- Both programs are told of variables, the server first. -/
def informBothDeeds (h : Host) (names : List String) : List Deed :=
  h.informDeeds names .server ++ h.informDeeds names .client

/-- Both programs told of variables that changed. -/
def informBoth (h : Host) (names : List String) : Host := h.after (h.informBothDeeds names)

/-- The list of changes is cleared, and both programs are told of what was on it. -/
def syncDeeds (h : Host) : List Deed :=
  .clear :: if h.world.changed.isEmpty then [] else h.informBothDeeds h.world.changed

/-- Both programs told of the variables that one of them changed. -/
def informChanged (h : Host) : Host := h.after h.syncDeeds

/-- A variable is set, and both programs are told of it if its text changed. -/
def setCvarDeeds (h : Host) (name text : String) : List Deed :=
  .assign name text :: if (h.world.setCvar name text).1 then h.informBothDeeds [name] else []

/-- Set a variable; whether its text changed. -/
def setCvar (h : Host) (name text : String) : Bool × Host :=
  ((h.world.setCvar name text).1, h.after (h.setCvarDeeds name text))

/-! ## Programs -/

/-- The program of a role, if there is one, is shut down while it is active. -/
def unloadDeeds (h : Host) (role : Role) : List Deed :=
  if (h.machine? role).isSome then [.force role, .shutDown role, .drop] else []

/-- The host without the program of a role; whether there was one. -/
def unload (h : Host) (role : Role) : Bool × Host :=
  ((h.machine? role).isSome, h.after (h.unloadDeeds role))

/-- A program takes the place of the one that was there. -/
def loadDeeds (h : Host) (role : Role) (p : Program) : List Deed :=
  h.unloadDeeds role ++ [.install role p]

/-- The host with a program, in the place of the one it had. -/
def load (h : Host) (role : Role) (p : Program) : Host := h.after (h.loadDeeds role p)

/-- What is answered to a request for the program of a file, and what is done. -/
def loadFileDeeds (h : Host) (role : Role) (path : String) : Except Cause Unit × List Deed :=
  match h.world.disk.read path with
  | .error e => (.error (.disk e), [.note .error s!"cannot read {path}: {e.detail}"])
  | .ok content =>
    match Program.ofBytes content with
    | .error e => (.error e, [])
    | .ok p => (.ok (), .note .debug p.summary :: h.loadDeeds role p)

/-- The host with the program of a file. -/
def loadFile (h : Host) (role : Role) (path : String) : Except Cause Unit × Host :=
  let (answer, deeds) := h.loadFileDeeds role path
  (answer, h.after deeds)

/-- A function is run while its program is active. Where another one is, it is not run. -/
def runDeeds (h : Host) (role : Role) (name : String) : List Deed :=
  if (h.machine? role).isSome then
    if h.world.active.isSome then [.enter role, .drop] else [.enter role, .run role name, .drop]
  else []

/-- Run a function by its name, while its program is active. -/
def executeActive (h : Host) (role : Role) (name : String) : Except Fault Unit × Host :=
  let (result, s) := Scene.attemptAll ⟨h, []⟩ (h.runDeeds role name)
  (result, s.host)

/-- Run a function by its name. Afterwards both programs know the variables that it changed. -/
def execute (h : Host) (role : Role) (name : String) : Except Fault Unit × Host :=
  match h.machine? role with
  | none => (.error (Cause.noProgram role), h.informChanged)
  | some _ =>
    let (result, h) := h.executeActive role name
    (result, h.informChanged)

/-! ## The console -/

/-- The host with one more command. -/
def addCommand (h : Host) (name : String) : Host :=
  h.mapWorld fun w =>
    if w.commands.contains name then w else { w with commands := w.commands ++ [name] }

/-- What was printed, and the host with nothing printed. -/
def takeOutput (h : Host) : Bytes × Host :=
  (h.world.output, h.mapWorld fun w => { w with output := [] })

/-- The commands that programs asked for, and the host without them. -/
def takeCommands (h : Host) : Bytes × Host :=
  (h.world.commandText, h.mapWorld fun w => { w with commandText := [] })

/-- The extensions that a program of a role cannot use. Those that are hidden are recorded. -/
def disabledExtensions (h : Host) (role : Role) : List String × Host :=
  let c := h.world.cvars
  let names := Extension.disabled c role
  if Extension.areEnabled c role then
    (names, h.mapWorld fun w =>
      names.foldl (fun w name => w.record .info (Extension.hiddenText name)) w)
  else (names, h)

end Host

end QuakeVm
