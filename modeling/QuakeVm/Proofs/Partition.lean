import QuakeVm.Proofs.Deeds

/-!
# The tables are partitioned by owner

`Request` lists the operations on the shared tables. Whoever makes one, with whatever handle, leaves
the entries of the other role alone; a handle of another role, or of nobody, gives the refusal of the
operation and no more than a caution.

For hosts the partition means that unloading a program frees what the program owned and nothing else.
A role without a program owns nothing, so that there is nothing left to free either.
-/

namespace QuakeVm

open QuakeVm.Action Activation

/-! ## Handles -/

/-- What a handle names in one of the shared tables. -/
inductive Resource where
  | file (handle : Int)
  | search (handle : Int)
  | buffer (handle : Int)
  deriving Repr, DecidableEq

/-- The role that something in the tables belongs to, if it is there. -/
def World.owner? (w : World) : Resource → Option Role
  | .file handle => (w.files.slot? handle).map (·.owner)
  | .search handle => (w.searches.slot? handle).map (·.owner)
  | .buffer handle => (w.buffers.slot? (handle - 1)).map (·.owner)

/-- The log has no part in who owns what. -/
theorem World.owner?_log (w : World) (log : Log) (s : Resource) :
    { w with log }.owner? s = w.owner? s := by
  cases s <;> rfl

theorem OwnedTable.get_error_of_owner {α : Type} {t : OwnedTable α} {owner : Role} {i : Int}
    (h : (t.slot? i).map (·.owner) ≠ some owner) : ∃ m, t.get owner i = .error m := by
  cases hget : t.get owner i with
  | error m => exact ⟨m, rfl⟩
  | ok v =>
    rw [OwnedTable.get_eq_ok.mp hget] at h
    exact absurd rfl h

/-! ## Requests -/

/-- An operation on the shared tables, by what it answers. -/
inductive Request : Type → Type where
  | openFile (name : String) (mode : FileMode) : Request (Option Nat)
  | closeFile (file : Int) : Request Bool
  | nextLine (file : Int) : Request (Option Bytes)
  | writeFile (file : Int) (s : Bytes) : Request Bool
  | fileSize (file : Int) : Request (Option Nat)
  | fileRemaining (file : Int) : Request (Option Nat)
  | startSearch (pattern : String) (ignoreCase quiet : Bool) : Request (Option Nat)
  | endSearch (search : Int) : Request Bool
  | searchSize (search : Int) : Request (Option Nat)
  | searchFile (search index : Int) (operation : String) : Request (Option FoundFile)
  | createBuffer : Request (Option Nat)
  | deleteBuffer (buffer : Int) : Request Bool
  | bufferSize (buffer : Int) : Request (Option Nat)
  | copyBuffer (source target : Int) : Request Bool
  | sortBuffer (buffer length : Int) (backward : Bool) : Request Bool
  | implodeBuffer (buffer : Int) (glue : Bytes) : Request (Option Bytes)
  | bufferString (buffer index : Int) : Request (Option Bytes)
  | setString (buffer index : Int) (s : Bytes) : Request Bool
  | addString (buffer : Int) (s : Bytes) (atEnd : Bool) : Request (Option Nat)
  | freeString (buffer index : Int) : Request Bool
  | addLines (buffer : Int) (text : Bytes) : Request Bool
  | bufferRange (buffer : Int) (start : Nat) (count? : Option Nat) : Request (Option (List Bytes))
  | replaceBuffer (buffer : Int) (strings : List Bytes) (operation : String) : Request Bool

namespace Request

variable {α : Type} {a b : Activation}

/-- Ask the world something on behalf of a role. -/
def ask (question : World → Role → α × World) : Action α := fun a =>
  let (answer, w) := question a.world a.machine.role
  .ok answer { a with world := w }

/-- Do what is requested. -/
def run : Request α → Action α
  | openFile name mode => Builtins.openFile name mode
  | closeFile file => Builtins.closeFile file
  | nextLine file => Builtins.nextLine file
  | writeFile file s => Builtins.writeFile file s
  | fileSize file => ask fun w role => w.fileSize role file
  | fileRemaining file => ask fun w role => w.fileRemaining role file
  | startSearch pattern ignoreCase quiet => Builtins.startSearch pattern ignoreCase quiet
  | endSearch search => Builtins.endSearch search
  | searchSize search => Builtins.searchSize search
  | searchFile search index operation => Builtins.searchFile search index operation
  | createBuffer => Builtins.createBuffer
  | deleteBuffer buffer => Builtins.deleteBuffer buffer
  | bufferSize buffer => Builtins.bufferSize buffer
  | copyBuffer source target => Builtins.copyBuffer source target
  | sortBuffer buffer length backward => Builtins.sortBuffer buffer length backward
  | implodeBuffer buffer glue => Builtins.implodeBuffer buffer glue
  | bufferString buffer index => Builtins.bufferString buffer index
  | setString buffer index s => Builtins.setString buffer index s
  | addString buffer s atEnd => Builtins.addString buffer s atEnd
  | freeString buffer index => Builtins.freeString buffer index
  | addLines buffer text => Builtins.addLines buffer text
  | bufferRange buffer start count? => Builtins.bufferRange buffer start count?
  | replaceBuffer buffer strings operation => Builtins.replaceBuffer buffer strings operation

/-- What a request is about. -/
def subjects : Request α → List Resource
  | openFile _ _ | startSearch _ _ _ | createBuffer => []
  | closeFile file | nextLine file | writeFile file _ | fileSize file | fileRemaining file =>
    [.file file]
  | endSearch search | searchSize search | searchFile search _ _ => [.search search]
  | copyBuffer source target => [.buffer source, .buffer target]
  | deleteBuffer buffer | bufferSize buffer | sortBuffer buffer _ _ | implodeBuffer buffer _
  | bufferString buffer _ | setString buffer _ _ | addString buffer _ _ | freeString buffer _
  | addLines buffer _ | bufferRange buffer _ _ | replaceBuffer buffer _ _ => [.buffer buffer]

/-- The answer that says that nothing was done. -/
def refusal : Request α → α
  | openFile _ _ | nextLine _ | fileSize _ | fileRemaining _ | startSearch _ _ _ | searchSize _
  | searchFile _ _ _ | createBuffer | bufferSize _ | implodeBuffer _ _ | bufferString _ _
  | addString _ _ _ | bufferRange _ _ _ => none
  | closeFile _ | writeFile _ _ | endSearch _ | deleteBuffer _ | copyBuffer _ _ | sortBuffer _ _ _
  | setString _ _ _ | freeString _ _ | addLines _ _ | replaceBuffer _ _ _ => false

/-- What an answer gives a new handle of. -/
def made? : Request α → α → Option Resource
  | openFile _ _, n? => n?.map fun n : Nat => .file n
  | startSearch _ _ _, n? => n?.map fun n : Nat => .search n
  | createBuffer, n? => n?.map fun n : Nat => .buffer n
  | _, _ => none

theorem books_ask {question : World → Role → Except FileRefusal Nat} :
    (ask fun w role => w.askFile (question w role)).Books a := by
  unfold ask World.askFile
  cases h : question a.world a.machine.role with
  | error refusal =>
    refine ⟨none, a.world.caution refusal.message, ?_, World.uses_common _ _ _ _ _ _ _ _⟩
    simp only [h]
  | ok n =>
    refine ⟨some n, a.world, ?_, .refl _ _⟩
    simp only [h]

instance (file : Int) : Bookkeeping (ask fun w role => w.fileSize role file) := ⟨fun _ => books_ask⟩

instance (file : Int) : Bookkeeping (ask fun w role => w.fileRemaining role file) :=
  ⟨fun _ => books_ask⟩

instance bookkeeping_run (r : Request α) : Bookkeeping r.run := by
  cases r <;> simp only [run] <;> infer_instance

/-! ## Requests that are refused -/

section Refused

theorem findFile_refused {handle : Int} (operation : String)
    (h : a.world.owner? (.file handle) ≠ some a.machine.role) :
    ∃ e, a.world.files.find a.machine.role handle operation = .error e := by
  obtain ⟨m, hm⟩ := OwnedTable.get_error_of_owner h
  exact ⟨.misuse operation handle m, by rw [FileTable.find, hm]⟩

theorem findSearch_refused {handle : Int} (operation : String)
    (h : a.world.owner? (.search handle) ≠ some a.machine.role) :
    ∃ text, a.world.searches.find a.machine.role handle operation = .error text := by
  obtain ⟨m, hm⟩ := OwnedTable.get_error_of_owner h
  exact ⟨m.message operation "search handle" handle, by rw [SearchTable.find, hm]⟩

theorem findBuffer_refused {handle : Int} (operation : String)
    (h : a.world.owner? (.buffer handle) ≠ some a.machine.role) :
    ∃ text, a.world.buffers.find a.machine.role handle operation = .error text := by
  obtain ⟨m, hm⟩ := OwnedTable.get_error_of_owner h
  exact ⟨m.message operation "buffer" handle, by rw [BufferTable.find, hm]⟩

/-- A buffer that is not found is none, with a warning in the log. -/
theorem findBuffer_of_error {handle : Int} {operation text : String}
    (h : a.world.buffers.find a.machine.role handle operation = .error text) :
    Builtins.findBuffer handle operation a = .ok none (a.mapWorld (·.caution text)) := by
  simp only [Builtins.findBuffer, bind_apply, world_apply, role_apply, h]
  rfl

theorem findBuffer_of_ok {handle : Int} {operation : String} {b : Buffer}
    (h : a.world.buffers.find a.machine.role handle operation = .ok b) :
    Builtins.findBuffer handle operation a = .ok (some b) a := by
  simp only [Builtins.findBuffer, bind_apply, world_apply, role_apply, h]
  rfl

/-- What follows when a buffer is refused. -/
theorem findBuffer_bind_refused {handle : Int} {operation : String} {f : Option Buffer → Action α}
    {v : α} (h : a.world.owner? (.buffer handle) ≠ some a.machine.role)
    (hf : ∀ b, f none b = .ok v b) :
    ∃ text, (Builtins.findBuffer handle operation >>= f) a =
      .ok v (a.mapWorld (·.caution text)) := by
  obtain ⟨text, htext⟩ := findBuffer_refused operation h
  refine ⟨text, ?_⟩
  rw [bind_apply, findBuffer_of_error htext]
  exact hf _

/-- The buffer of another role is not changed. -/
theorem changeBuffer_refused {handle : Int} (operation : String) (f : Buffer → Buffer)
    (h : a.world.owner? (.buffer handle) ≠ some a.machine.role) :
    ∃ text, Builtins.changeBuffer handle operation f a =
      .ok false (a.mapWorld (·.caution text)) :=
  findBuffer_bind_refused h fun _ => rfl

/-- Copying needs both buffers. -/
theorem copyBuffer_refused {source target : Int} {s : Resource}
    (hs : s = .buffer source ∨ s = .buffer target) (h : a.world.owner? s ≠ some a.machine.role) :
    ∃ text, Builtins.copyBuffer source target a = .ok false (a.mapWorld (·.caution text)) := by
  by_cases hsource : a.world.owner? (.buffer source) = some a.machine.role
  · -- The source is looked up first, so it is the target that is refused, and it is another buffer.
    have htarget : s = .buffer target := hs.resolve_left fun heq => h (heq ▸ hsource)
    subst htarget
    have hne : source ≠ target := fun heq => h (heq ▸ hsource)
    cases hfind : a.world.buffers.find a.machine.role source "buf_copy" with
    | error text =>
      refine ⟨text, ?_⟩
      rw [Builtins.copyBuffer, bind_apply, findBuffer_of_error hfind]
      rfl
    | ok b =>
      rw [Builtins.copyBuffer, bind_apply, findBuffer_of_ok hfind]
      simp only [beq_iff_eq, hne, if_false]
      exact changeBuffer_refused _ _ h
  · exact findBuffer_bind_refused hsource fun _ => rfl

/-- A request about something that the role of the machine does not own leaves a caution, and is
answered by its refusal. -/
theorem run_of_refused (r : Request α) {s : Resource} (hs : s ∈ r.subjects)
    (h : a.world.owner? s ≠ some a.machine.role) :
    ∃ text, r.run a = .ok r.refusal (a.mapWorld (·.caution text)) := by
  cases r with
  | openFile | startSearch | createBuffer => cases hs
  | closeFile =>
    cases List.mem_singleton.mp hs
    obtain ⟨e, he⟩ := findFile_refused "fclose" h
    refine ⟨e.message, ?_⟩
    simp only [run, Builtins.closeFile, bind_apply, world_apply, role_apply, FileTable.close, he]
    rfl
  | nextLine =>
    cases List.mem_singleton.mp hs
    obtain ⟨e, he⟩ := findFile_refused "fgets" h
    refine ⟨e.message, ?_⟩
    simp only [run, Builtins.nextLine, bind_apply, world_apply, role_apply, FileTable.gets,
      FileTable.getsBy, he]
    rfl
  | writeFile =>
    cases List.mem_singleton.mp hs
    obtain ⟨e, he⟩ := findFile_refused "fputs" h
    refine ⟨e.message, ?_⟩
    simp only [run, Builtins.writeFile, bind_apply, world_apply, role_apply, FileTable.write, he]
    rfl
  | fileSize =>
    cases List.mem_singleton.mp hs
    obtain ⟨e, he⟩ := findFile_refused "fsize" h
    refine ⟨e.message, ?_⟩
    simp only [run, ask, World.fileSize, FileTable.fileSize, he]
    rfl
  | fileRemaining =>
    cases List.mem_singleton.mp hs
    obtain ⟨e, he⟩ := findFile_refused "fremaining" h
    refine ⟨e.message, ?_⟩
    simp only [run, ask, World.fileRemaining, FileTable.fileRemaining, he]
    rfl
  | endSearch =>
    cases List.mem_singleton.mp hs
    obtain ⟨text, htext⟩ := findSearch_refused "search_end" h
    refine ⟨text, ?_⟩
    simp only [run, Builtins.endSearch, Builtins.findSearch, bind_apply, world_apply, role_apply,
      htext]
    rfl
  | searchSize =>
    cases List.mem_singleton.mp hs
    obtain ⟨text, htext⟩ := findSearch_refused "search_getsize" h
    refine ⟨text, ?_⟩
    simp only [run, Builtins.searchSize, Builtins.findSearch, bind_apply, world_apply, role_apply,
      htext]
    rfl
  | searchFile search index operation =>
    cases List.mem_singleton.mp hs
    obtain ⟨text, htext⟩ := findSearch_refused operation h
    refine ⟨text, ?_⟩
    simp only [run, Builtins.searchFile, bind_apply, world_apply, role_apply, SearchTable.file,
      htext]
    rfl
  | deleteBuffer | bufferSize | implodeBuffer | bufferString | addString | freeString | addLines
  | bufferRange =>
    cases List.mem_singleton.mp hs
    exact findBuffer_bind_refused h fun _ => rfl
  | sortBuffer | replaceBuffer =>
    cases List.mem_singleton.mp hs
    exact changeBuffer_refused _ _ h
  | copyBuffer => exact copyBuffer_refused (by simpa [subjects] using hs) h
  | setString =>
    cases List.mem_singleton.mp hs
    simp only [run, Builtins.setString]
    split
    · exact ⟨_, rfl⟩
    · exact findBuffer_bind_refused h fun _ => rfl

end Refused

/-! ## New handles -/

section New

variable {n : Nat}

/-- To find a path for a file is to change the disk and the log at most. -/
theorem openPath?_apply (name : String) (mode : FileMode) (a : Activation) :
    ∃ path? disk log, Builtins.openPath? name mode a =
      .ok path? (a.mapWorld fun w => { w with disk, log }) := by
  unfold Builtins.openPath?
  rw [bind_apply, world_apply]
  cases mode with
  | read =>
    dsimp only
    cases a.world.sandbox.readPath a.world.disk name with
    | ok path => exact ⟨_, a.world.disk, a.world.log, rfl⟩
    | error r => dsimp only; cases r.caution? <;> exact ⟨_, a.world.disk, _, rfl⟩
  | append | write =>
    dsimp only
    cases a.world.sandbox.writePath a.world.disk name with
    | ok r => exact ⟨_, r.2, a.world.log, rfl⟩
    | error r => dsimp only; cases r.caution? <;> exact ⟨_, a.world.disk, _, rfl⟩

/-- A file gets a handle that nobody had. -/
theorem openFile_fresh {name : String} {mode : FileMode}
    (h : Builtins.openFile name mode a = .ok (some n) b) :
    a.world.owner? (.file n) = none ∧ b.world.owner? (.file n) = some a.machine.role := by
  obtain ⟨path?, disk, log, hpath⟩ := openPath?_apply name mode a
  unfold Builtins.openFile at h
  rw [bind_apply, hpath] at h
  cases path? with
  | none => cases h
  | some path =>
    dsimp only at h
    rw [bind_apply, world_apply] at h
    dsimp only at h
    generalize Builtins.openPlace _ path mode = opened at h
    cases opened with
    | error e => cases h
    | ok r =>
      obtain ⟨place, disk'⟩ := r
      cases h
      obtain ⟨hfree, hnew⟩ := FileTable.slot?_insert a.world.files a.machine.role
        { name, place, mode, size := (disk'.contentAt place).length }
      exact ⟨congrArg (Option.map Owned.owner) hfree, congrArg (Option.map Owned.owner) hnew⟩

/-- A search gets a handle that nobody had. -/
theorem startSearch_fresh {pattern : String} {ignoreCase quiet : Bool}
    (h : Builtins.startSearch pattern ignoreCase quiet a = .ok (some n) b) :
    a.world.owner? (.search n) = none ∧ b.world.owner? (.search n) = some a.machine.role := by
  unfold Builtins.startSearch at h
  rw [bind_apply, world_apply] at h
  dsimp only at h
  rw [bind_apply, role_apply] at h
  dsimp only at h
  generalize hstart : SearchTable.start _ _ _ _ _ _ = r at h
  cases r with
  | error refusal =>
    dsimp only at h
    cases hc : refusal.caution? with
    | some text => rw [hc] at h; cases h
    | none => rw [hc] at h; cases quiet <;> cases h
  | ok r =>
    obtain ⟨handle, count, searches⟩ := r
    cases h
    obtain ⟨hfree, files, rfl⟩ := SearchTable.start_eq_ok hstart
    obtain ⟨hn, hnone⟩ := OwnedTable.free?_eq_some hfree
    have hnew := OwnedTable.slot?_put_self a.world.searches hn a.machine.role files
    exact ⟨congrArg (Option.map Owned.owner) hnone, congrArg (Option.map Owned.owner) hnew⟩

/-- A buffer gets a handle that nobody had. -/
theorem createBuffer_fresh (h : Builtins.createBuffer a = .ok (some n) b) :
    a.world.owner? (.buffer n) = none ∧ b.world.owner? (.buffer n) = some a.machine.role := by
  unfold Builtins.createBuffer at h
  rw [bind_apply, world_apply] at h
  dsimp only at h
  rw [bind_apply, role_apply] at h
  dsimp only at h
  generalize hcreate : BufferTable.create? _ _ = r at h
  cases r with
  | none => cases h
  | some r =>
    obtain ⟨handle, buffers⟩ := r
    cases h
    obtain ⟨i, rfl, hfree, rfl⟩ := BufferTable.create?_eq_some hcreate
    obtain ⟨hi, hnone⟩ := OwnedTable.free?_eq_some hfree
    -- The handle of a buffer is one more than the number of its slot.
    have hslot : ((i + 1 : Nat) : Int) - 1 = i := by omega
    have hnew := OwnedTable.slot?_put_self a.world.buffers hi a.machine.role {}
    rw [World.owner?, World.owner?, hslot, hnone]
    exact ⟨rfl, congrArg (Option.map Owned.owner) hnew⟩

/-- What a request makes was not there before, and belongs to the role of the machine. -/
theorem made_fresh (r : Request α) {v : α} {s : Resource} (h : r.run a = .ok v b)
    (hs : r.made? v = some s) :
    a.world.owner? s = none ∧ b.world.owner? s = some a.machine.role := by
  cases r with
  | openFile =>
    obtain ⟨n, rfl, rfl⟩ := Option.map_eq_some_iff.mp hs
    exact openFile_fresh h
  | startSearch =>
    obtain ⟨n, rfl, rfl⟩ := Option.map_eq_some_iff.mp hs
    exact startSearch_fresh h
  | createBuffer =>
    obtain ⟨n, rfl, rfl⟩ := Option.map_eq_some_iff.mp hs
    exact createBuffer_fresh h
  | _ => cases hs

end New

end Request

/-! ## Runs of programs -/

/-- One effect does not touch what belongs to other roles. -/
theorem Effect.keepsOthers {writable : Nat → Prop} {a b : Activation} (h : Effect writable a b) :
    b.machine.role = a.machine.role ∧ a.world.KeepsOthers a.machine.role b.world := by
  cases h with
  | assignCvar name text =>
    obtain ⟨registers, strings, heq⟩ := sameButGlobals_assignCvar a name text
    refine ⟨by rw [heq], World.SameTables.keepsOthers ?_ _⟩
    have hset := a.world.sameTables_setCvar name text
    unfold assignCvar
    dsimp only
    split <;> exact ⟨hset.files_eq, hset.searches_eq, hset.buffers_eq⟩
  | world w h => exact ⟨rfl, h.others⟩
  | _ => exact ⟨rfl, .refl _ _⟩

/-- A program of a role leaves the entries of the other one alone. -/
theorem invariant_keepsOthers (role : Role) (w : World) :
    Invariant (fun _ => True) fun a => a.machine.role = role ∧ w.KeepsOthers role a.world where
  effect h ha := by
    obtain ⟨hrole, hkeeps⟩ := ha
    obtain ⟨hsame, hothers⟩ := Effect.keepsOthers h
    rw [hrole] at hsame hothers
    exact ⟨hsame, hkeeps.trans hothers⟩
  calls _ _ _ _ _ _ ha := ha

/-! ## Loading programs -/

/-- Variables with some more that programs follow. -/
inductive Cvars.Extends (c : Cvars) : Cvars → Prop where
  | refl : Extends c c
  | follow {c' : Cvars} (h : Extends c c') (name default : String) :
    Extends c (c'.follow name default)

theorem Cvars.Extends.trans {c c' c'' : Cvars} (h : c.Extends c') (h' : c'.Extends c'') :
    c.Extends c'' := by
  induction h' with
  | refl => exact h
  | follow _ name default ih => exact .follow ih name default

/-- A world in which a program is loaded: there are variables that it follows, and records. -/
def World.Declares (w w' : World) : Prop :=
  ∃ cvars log, w.cvars.Extends cvars ∧ w' = { w with cvars, log }

namespace World

theorem Declares.refl (w : World) : w.Declares w := ⟨_, _, .refl, rfl⟩

theorem Declares.trans {w w' w'' : World} (h : w.Declares w') (h' : w'.Declares w'') :
    w.Declares w'' := by
  obtain ⟨cvars, log, hcvars, rfl⟩ := h
  obtain ⟨cvars', log', hcvars', rfl⟩ := h'
  exact ⟨cvars', log', hcvars.trans hcvars', rfl⟩

theorem declares_record (w : World) (level : Level) (text : String) :
    w.Declares (w.record level text) := ⟨_, _, .refl, rfl⟩

theorem declares_follow (w : World) (name default : String) :
    w.Declares { w with cvars := w.cvars.follow name default } :=
  ⟨_, w.log, .follow .refl name default, rfl⟩

/-- Declaring variables leaves the tables of handles alone. -/
theorem Declares.sameTables {w w' : World} (h : w.Declares w') : w.SameTables w' := by
  obtain ⟨_, _, -, rfl⟩ := h
  exact ⟨rfl, rfl, rfl⟩

end World

namespace Activation

theorem declares_bindNamed (role : Role) (name : String) (f : Function) (bound : Nat) (w : World) :
    w.Declares (bindNamed role name f bound w).2.2 := by
  unfold bindNamed
  split
  · exact .refl w
  · split <;> exact w.declares_record _ _

theorem declares_bindAllNamed (role : Role) (p : Program) (bound : Nat) (w : World)
    (functions : List Function) :
    w.Declares (bindAllNamed role p bound w functions).2.2 := by
  induction functions generalizing bound w with
  | nil => exact .refl w
  | cons f rest ih => exact (declares_bindNamed role _ f bound w).trans (ih _ _)

/-- Linking a program declares variables at most. -/
theorem declares_link (s : Activation) : s.world.Declares s.link.world := by
  unfold link
  dsimp only
  split
  · exact .refl _
  · exact (declares_bindAllNamed _ _ _ _ _).trans (World.declares_record _ _ _)

theorem declares_declare (s : Activation) (v : Autocvar) :
    s.world.Declares (s.declare v).world := by
  unfold declare
  split
  · exact World.declares_follow _ _ _
  · cases autocvarComplaint? s.machine v <;> dsimp only <;> split
    exacts [⟨_, _, .refl, rfl⟩, ⟨_, _, .follow .refl _ _, rfl⟩, ⟨_, _, .refl, rfl⟩,
      ⟨_, _, .follow .refl _ _, rfl⟩]

/-- The variables of a program are declared, and nothing else happens to the world. -/
theorem declares_declareAll (s : Activation) : s.world.Declares s.declareAll.world := by
  have hfold : ∀ (found : List Autocvar) (s : Activation),
      s.world.Declares (found.foldl declare s).world := by
    intro found
    induction found with
    | nil => exact fun s => .refl _
    | cons v rest ih => exact fun s => (declares_declare s v).trans (ih _)
  exact (hfold _ s).trans (World.declares_record _ _ _)

/-- Loading a program makes variables and records, and changes nothing else of the world. -/
theorem declares_load (role : Role) (p : Program) (w : World) :
    w.Declares (load role p w).world :=
  ((declares_link ⟨.new role p w.cvars, w⟩).trans (declares_declareAll _)).trans
    (World.declares_record _ _ _)

end Activation

/-! ## Hosts -/

namespace Host

variable {h : Host} {role other : Role} {m : Machine}

/-- Machines stand in the place of their role, and a role without one owns nothing. -/
structure Partitioned (h : Host) : Prop where
  role_eq : ∀ {role m}, h.machine? role = some m → m.role = role
  hasNone : ∀ {role}, h.machine? role = none → h.world.HasNone role

theorem partitioned_new (directory : String) (disk : Disk) : (new directory disk).Partitioned where
  role_eq {role m} hm := by cases role <;> cases hm
  hasNone _ := ⟨OwnedTable.hasNone_empty _ _, OwnedTable.hasNone_empty _ _,
    OwnedTable.hasNone_empty _ _⟩

/-- The world may change in all but its tables. -/
theorem Partitioned.surroundings (hh : h.Partitioned) {w : World} (hw : h.world.SameTables w) :
    { h with world := w }.Partitioned where
  role_eq hm := by
    rw [machine?_withWorld] at hm
    exact hh.role_eq hm
  hasNone hm := by
    rw [machine?_withWorld] at hm
    exact (hh.hasNone hm).of_sameTables hw

/-- A role has a machine and a world in which the entries of the other role are what they were. -/
theorem Partitioned.replace (hh : h.Partitioned) {w : World} (hrole : m.role = role)
    (hkeeps : h.world.KeepsOthers role w) :
    ({ h with world := w }.setMachine role (some m)).Partitioned where
  role_eq {other m'} hm := by
    rw [machine?_setMachine, machine?_withWorld] at hm
    split at hm
    · rename_i heq
      cases hm
      exact hrole.trans heq.symm
    · exact hh.role_eq hm
  hasNone {other} hm := by
    rw [machine?_setMachine, machine?_withWorld] at hm
    split at hm
    · cases hm
    · rename_i hne
      rw [world_setMachine]
      exact (hh.hasNone hm).of_keepsOthers hne hkeeps

/-- An action that keeps to its role keeps the host partitioned. -/
theorem Partitioned.act {α : Type} (hh : h.Partitioned) {x : Action α}
    (hx : ∀ m, m.role = role → (x.final ⟨m, h.world⟩).machine.role = role ∧
      h.world.KeepsOthers role (x.final ⟨m, h.world⟩).world) : (h.act role x).2.Partitioned := by
  cases hm : h.machine? role with
  | none =>
    rw [act_of_none hm]
    exact hh
  | some m =>
    obtain ⟨hrole, hkeeps⟩ := hx m (hh.role_eq hm)
    rw [act_of_some hm]
    exact hh.replace hrole hkeeps

/-- Running a function leaves the entries of the other role alone. -/
theorem Partitioned.run (hh : h.Partitioned) (role : Role) (number : Int) :
    (h.act role (QuakeVm.execute number)).2.Partitioned :=
  hh.act fun m hm => (invariant_keepsOthers role h.world).execute
    (writesOnly_true number ⟨m, h.world⟩) ⟨hm, .refl role h.world⟩

theorem Partitioned.confined {α : Type} (hh : h.Partitioned) (role : Role) {x : Action α}
    (hx : Confined x) : (h.act role x).2.Partitioned :=
  hh.act fun m hm => (invariant_keepsOthers role h.world).effects (hx.effects ⟨m, h.world⟩)
    ⟨hm, .refl role h.world⟩

theorem sameTables_activate (w : World) (role : Role) : w.SameTables (activate w role).2 := by
  unfold activate switch
  cases w.active <;> exact ⟨rfl, rfl, rfl⟩

/-! ## Unloading -/

theorem sameButLog_recordIf (w : World) (c : Prop) [Decidable c] (text : String) :
    w.SameButLog (if c then w.record .debug text else w) := by
  split
  · exact w.sameButLog_add _ _
  · exact .refl w

theorem sameButLog_recordAll {β : Type} (w : World) (text : β → String) (l : List β) :
    w.SameButLog (l.foldl (fun w f => w.record .debug (text f)) w) := by
  induction l generalizing w with
  | nil => exact .refl w
  | cons f rest ih => exact (w.sameButLog_add _ _).trans (ih _)

/-- A program that is shut down releases what it owned, and that is recorded. -/
theorem shutDown_eq (w : World) (m : Machine) :
    ∃ log, shutDown w m = { w with
      files := w.files.release m.role
      searches := w.searches.release m.role
      buffers := w.buffers.release m.role
      log } := by
  unfold shutDown
  extract_lets role zoned w₁ files w₂ searches w₃ buffers w₄
  have hsame : w.SameButLog w₄ :=
    (((sameButLog_recordIf w _ _).trans (sameButLog_recordAll w₁ _ files)).trans
      (sameButLog_recordIf w₂ _ _)).trans (sameButLog_recordIf w₃ _ _)
  -- Up to here there are only records; what follows releases the entries of the role.
  clear_value w₄
  obtain ⟨log, -, rfl⟩ := hsame
  exact ⟨_, rfl⟩

/-- A program that is shut down leaves nothing of its own behind, and the rest as it was. -/
theorem shutDown_spec (w : World) (m : Machine) :
    (shutDown w m).HasNone m.role ∧ w.KeepsOthers m.role (shutDown w m) := by
  obtain ⟨log, heq⟩ := shutDown_eq w m
  rw [heq]
  constructor
  · exact ⟨OwnedTable.hasNone_release _ _, OwnedTable.hasNone_release _ _,
      OwnedTable.hasNone_release _ _⟩
  · exact ⟨OwnedTable.keepsOthers_release _ _, OwnedTable.keepsOthers_release _ _,
      OwnedTable.keepsOthers_release _ _⟩

/-- Unloading frees the entries of a role, and no others; the machine of the other role stays. -/
theorem Partitioned.unload_spec (hh : h.Partitioned) (role : Role) :
    (h.unload role).2.world.HasNone role ∧ h.world.KeepsOthers role (h.unload role).2.world ∧
      ∀ other, (h.unload role).2.machine? other = if other = role then none else h.machine? other := by
  cases hm : h.machine? role with
  | none =>
    -- Nothing is unloaded, but a role without a program owns nothing either.
    rw [unload_of_none hm]
    refine ⟨hh.hasNone hm, .refl _ _, fun other => ?_⟩
    by_cases hother : other = role
    · rw [if_pos hother, hother, hm]
    · rw [if_neg hother]
  | some m =>
    have hrole := hh.role_eq hm
    subst hrole
    rw [unload_of_some hm, world_setMachine]
    obtain ⟨hnone, hkeeps⟩ := shutDown_spec (force h.world m.role) m
    generalize shutDown (force h.world m.role) m = w at hnone hkeeps
    have hforce : h.world.SameTables (force h.world m.role) := ⟨rfl, rfl, rfl⟩
    have hrestore : w.SameTables (restore w h.world.active) := ⟨rfl, rfl, rfl⟩
    refine ⟨hnone.of_sameTables hrestore, ?_, fun other => ?_⟩
    · exact ((hforce.keepsOthers _).trans hkeeps).trans (hrestore.keepsOthers _)
    · rw [machine?_setMachine]
      cases other <;> rfl

/-- Without its machine a role has nothing left that could be its own. -/
theorem Partitioned.shutDown (hh : h.Partitioned) (hm : h.machine? role = some m) :
    ((h.mapWorld (Host.shutDown · m)).setMachine role none).Partitioned := by
  obtain ⟨hnone, hkeeps⟩ := shutDown_spec h.world m
  rw [hh.role_eq hm] at hnone hkeeps
  constructor
  · intro other m' hm'
    rw [machine?_setMachine] at hm'
    split at hm'
    · cases hm'
    · exact hh.role_eq ((machine?_withWorld _ _ _).symm.trans hm')
  · intro other hm'
    rw [world_setMachine]
    by_cases hother : other = role
    · subst hother
      exact hnone
    · rw [machine?_setMachine, if_neg hother] at hm'
      exact (hh.hasNone ((machine?_withWorld _ _ _).symm.trans hm')).of_keepsOthers hother hkeeps

/-- **Each deed keeps the tables partitioned.** -/
theorem partitioned_carryOut (s : Scene) (d : Deed) (hs : s.host.Partitioned) :
    (s.carryOut d).host.Partitioned := by
  cases d with
  | enter role =>
    rw [Scene.carryOut_enter]
    exact hs.surroundings (sameTables_activate _ role)
  | force role => exact hs.surroundings ⟨rfl, rfl, rfl⟩
  | drop =>
    obtain ⟨h, guards⟩ := s
    rcases guards with _ | ⟨_ | previous, rest⟩
    · exact hs
    · exact hs
    · exact hs.surroundings ⟨rfl, rfl, rfl⟩
  | run role name =>
    cases hm : s.host.machine? role with
    | none =>
      rw [Scene.carryOut_run_of_none hm]
      exact hs
    | some m =>
      rw [Scene.carryOut_run hm]
      cases m.findFunction name with
      | error e => exact hs.confined role (x := (fail e : Action Unit)) inferInstance
      | ok number => exact hs.run role number
  | update role name =>
    change (s.host.setMachine role
      ((s.host.machine? role).map (·.update s.host.world.cvars name))).Partitioned
    cases hm : s.host.machine? role with
    | none =>
      rw [Option.map_none, setMachine_self hm]
      exact hs
    | some m =>
      obtain ⟨registers, strings, heq⟩ := m.sameButGlobals_update s.host.world.cvars name
      have hrole : (m.update s.host.world.cvars name).role = role := by
        have hrole := hs.role_eq hm
        rwa [heq]
      exact hs.replace hrole (.refl role _)
  | shutDown role =>
    cases hm : s.host.machine? role with
    | none =>
      rw [Scene.carryOut_shutDown_of_none hm]
      exact hs
    | some m =>
      rw [Scene.carryOut_shutDown hm]
      exact hs.shutDown hm
  | install role p =>
    have hworld := (Activation.declares_load role p s.host.world).sameTables
    exact hs.replace (sameLinkage_load role p _).role_eq (hworld.keepsOthers role)
  | assign name text => exact hs.surroundings (s.host.world.sameTables_setCvar name text)
  | clear => exact hs.surroundings ⟨rfl, rfl, rfl⟩
  | note level text => exact hs.surroundings (s.host.world.sameTables_record level text)

/-- The hosts that come about where from outside no machine changes its role and the tables stay as they
are. -/
def Reachable (h : Host) : Prop := h.Arises (fun m m' => m'.role = m.role) World.SameTables

/-- Every reachable host is partitioned. -/
theorem Reachable.partitioned (hh : h.Reachable) : h.Partitioned :=
  hh.induction partitioned_new partitioned_carryOut (fun hh => hh.run)
    (fun hh role _ _ hx => hh.confined role hx)
    (fun hh _ _ hf => hh.act fun m hm => ⟨(hf m).trans hm, .refl _ _⟩) (fun hh _ => hh.surroundings)

end Host

/-- **The shared tables are partitioned by owner.** A request leaves the entries of the other role
alone, a request about what its role does not own is refused and changes nothing but the log, and a
new handle is one that was not in use. Unloading a program frees all that it owned, leaves what the
other role owns, and leaves the machine of the other role. -/
theorem tables_partitioned :
    (∀ {α : Type} (r : Request α) (a : Activation),
      ∃ v w, r.run a = .ok v { a with world := w } ∧ a.world.KeepsOthers a.machine.role w ∧
        (∀ s ∈ r.subjects, a.world.owner? s ≠ some a.machine.role →
          v = r.refusal ∧ ∃ log, w = { a.world with log }) ∧
        ∀ s, r.made? v = some s →
          a.world.owner? s = none ∧ w.owner? s = some a.machine.role) ∧
    ∀ {h : Host}, h.Reachable → ∀ role,
      (h.unload role).2.world.HasNone role ∧ h.world.KeepsOthers role (h.unload role).2.world ∧
        ∀ other, other ≠ role → (h.unload role).2.machine? other = h.machine? other := by
  constructor
  · intro α r a
    obtain ⟨v, w, hrun, huses⟩ := (Request.bookkeeping_run r).books a
    refine ⟨v, w, hrun, huses.others, fun s hs hnot => ?_, fun s hs => ?_⟩
    · obtain ⟨text, hrefused⟩ := r.run_of_refused hs hnot
      rw [hrun] at hrefused
      cases hrefused
      exact ⟨rfl, _, rfl⟩
    · exact r.made_fresh hrun hs
  · intro h hh role
    obtain ⟨hnone, hkeeps, hmachine⟩ := hh.partitioned.unload_spec role
    exact ⟨hnone, hkeeps, fun other hne => by rw [hmachine, if_neg hne]⟩

theorem free?_new : BufferTable.new.free? = some 0 := by
  simp [BufferTable.new, OwnedTable.free?, OwnedTable.empty, Limits.buffers,
    Array.findIdx?_replicate]

/-- The first buffer of a world has the handle one. -/
theorem createBuffer_of_new {a : Activation} (h : a.world.buffers = .new) :
    ∃ b, Builtins.createBuffer a = .ok (some 1) b := by
  have hcreate : a.world.buffers.create? a.machine.role =
      some (1, a.world.buffers.put 0 a.machine.role {}) := by
    rw [h, BufferTable.create?, free?_new]
  simp only [Builtins.createBuffer, bind_apply, world_apply, role_apply, hcreate]
  exact ⟨_, rfl⟩

theorem owner?_act_createBuffer {h : Host} {role : Role} {m : Machine}
    (hm : h.machine? role = some m) (hrole : m.role = role) (hbuffers : h.world.buffers = .new) :
    (h.act role Builtins.createBuffer).2.world.owner? (.buffer 1) = some role := by
  obtain ⟨b, hrun⟩ := createBuffer_of_new (a := ⟨m, h.world⟩) hbuffers
  have hnew := (Request.createBuffer_fresh hrun).2
  simp only [Host.act, hm, hrun, Host.world_setMachine]
  rw [← hrole]
  exact hnew

/-- A host whose server has been loaded. -/
def serving : Host := (Host.new "game" .empty).load .server measuring

/-- The host after its server has made a string buffer. -/
def buffering : Host := (serving.act .server Builtins.createBuffer).2

theorem owner?_buffering : buffering.world.owner? (.buffer 1) = some .server := by
  rw [buffering]
  refine owner?_act_createBuffer (Host.machine?_load _ _ _) (sameLinkage_load _ _ _).role_eq ?_
  rw [serving, Host.world_load, (declares_load _ _ _).sameTables.buffers_eq, Host.unload_of_none rfl]
  rfl

/-- No client can delete the buffer of the server, and the buffer goes when the server does. -/
theorem tables_partitioned_buffering :
    buffering.Reachable ∧ buffering.world.owner? (.buffer 1) = some .server ∧
      (∀ a : Activation, a.machine.role = .client → a.world = buffering.world → ∃ w,
        (Request.deleteBuffer 1).run a = .ok false { a with world := w } ∧
          w.owner? (.buffer 1) = some .server) ∧
      (buffering.unload .server).2.world.owner? (.buffer 1) ≠ some .server := by
  have hreachable : buffering.Reachable := by
    rw [buffering]
    exact ((Host.Arises.new "game" .empty).perform (.load .server measuring)).confined .server
      inferInstance
  refine ⟨hreachable, owner?_buffering, fun a hclient hworld => ?_, fun howner => ?_⟩
  · obtain ⟨v, w, hrun, -, hrefused, -⟩ := tables_partitioned.1 (.deleteBuffer 1) a
    have hserver : a.world.owner? (.buffer 1) = some .server := by rw [hworld, owner?_buffering]
    obtain ⟨rfl, log, rfl⟩ := hrefused (.buffer 1) (List.mem_singleton.mpr rfl)
      (by rw [hserver, hclient]; decide)
    exact ⟨_, hrun, (World.owner?_log _ log _).trans hserver⟩
  · obtain ⟨hnone, -, -⟩ := tables_partitioned.2 hreachable .server
    obtain ⟨e, he, hserver⟩ := Option.map_eq_some_iff.mp howner
    exact hnone.buffers _ e he hserver

end QuakeVm
