import QuakeVm.Proofs.BufferMaps
import QuakeVm.Proofs.IndifferentBuiltins
import QuakeVm.Proofs.Tree

/-!
# Lines written and read back

A program opens a file for writing, writes strings of a buffer to it, a line each, and opens it
again to read them. This module shows that it gets back what it wrote. Three things have to fit
together.

The disk: a file that has been made is where its path leads to (`holds_create`), and writing to it
does not change that, because no directory comes or goes (`Extends`). The handle: each write goes to
the end of what was written before (`Wrote.write_eq`). The lines: a string without a line feed and a
NUL, and with no carriage return at its end, is read as it was written (`segments_terminated`). This
is also true of an empty one, which is what a hole is written as.
-/

namespace QuakeVm

/-! ## Files on the disk -/

namespace Disk

variable {d d' : Disk} {p q : Place} {path : String} {content : Bytes}

theorem lookup_cons_ne {place : Place} (h : q ≠ place) (n : Node) (rest : List (Place × Node)) :
    ((place, n) :: rest).lookup q = rest.lookup q := by
  rw [List.lookup_cons, beq_false_of_ne h]

theorem lookup_replace (nodes : List (Place × Node)) (p q : Place) (n : Node) :
    (nodes.map fun e => if e.1 == p then (p, n) else e).lookup q =
      if q = p then (nodes.lookup p).map fun _ => n else nodes.lookup q := by
  induction nodes with
  | nil => simp
  | cons e rest ih =>
    obtain ⟨place, node⟩ := e
    rw [List.map_cons]
    by_cases hplace : place = p
    · subst hplace
      by_cases hq : q = place
      · simp [hq]
      · simp only [beq_self_eq_true, if_true, lookup_cons_ne hq, if_neg hq, ih]
    · rw [if_neg (by simpa using hplace)]
      by_cases hq : q = place
      · simp [hq, hplace]
      · rw [lookup_cons_ne hq, lookup_cons_ne hq, lookup_cons_ne fun heq => hplace heq.symm, ih]

/-- What is put at a place stands there, and all else stays. -/
theorem node?_set (hp : d.node? p ≠ some .directory) (n : Node) (q : Place) :
    (d.set p n).node? q = if q = p then some n else d.node? q := by
  have htop : (p == [] || p == root) = false := by
    rw [← Bool.not_eq_true]
    intro htop
    exact hp (if_pos htop)
  by_cases hq : (q == [] || q == root) = true
  · have hne : q ≠ p := fun heq => by rw [← heq, hq] at htop; cases htop
    rw [if_neg hne, node?, node?, if_pos hq, if_pos hq]
  · rw [node?, if_neg hq, node?, if_neg hq]
    by_cases hsome : (d.nodes.lookup p).isSome = true
    · obtain ⟨node, hnode⟩ := Option.isSome_iff_exists.mp hsome
      rw [set, if_pos hsome, lookup_replace, hnode]
      rfl
    · rw [set, if_neg hsome, List.lookup_append]
      by_cases heq : q = p
      · rw [Option.not_isSome_iff_eq_none] at hsome
        simp [heq, hsome]
      · rw [lookup_cons_ne heq, List.lookup_nil, Option.or_none, if_neg heq]

/-- A disk has what another one has, and the same directories. -/
structure Extends (d d' : Disk) : Prop where
  directories : ∀ p, d'.isDirectoryAt p = d.isDirectoryAt p
  nodes : ∀ p, (d.node? p).isSome = true → (d'.node? p).isSome = true

theorem Extends.refl (d : Disk) : d.Extends d := ⟨fun _ => rfl, fun _ h => h⟩

theorem extends_set (hp : d.node? p ≠ some .directory) (content : Bytes) (modified : Int) :
    d.Extends (d.set p (.file content modified)) where
  directories q := by
    unfold isDirectoryAt
    rw [node?_set hp]
    split
    · rename_i hq
      rw [hq, beq_false_of_ne hp]
      rfl
    · rfl
  nodes q hq := by
    rw [node?_set hp]
    split
    · rfl
    · exact hq

/-- A path still leads where it led to. -/
theorem Extends.follow (h : d.Extends d') {l : List String} (hl : d.follow p l = .ok q) :
    d'.follow p l = .ok q := by
  induction l generalizing p with
  | nil => exact hl
  | cons s rest ih =>
    rw [Disk.follow] at hl ⊢
    rw [h.directories]
    split_ifs at hl with hdir hstay hback hnode
    · rw [if_neg hdir, if_pos hstay]
      exact ih hl
    · rw [if_neg hdir, if_neg hstay, if_pos hback]
      exact ih hl
    · rw [if_neg hdir, if_neg hstay, if_neg hback, if_pos (h.nodes _ hnode)]
      exact ih hl

theorem Extends.locate (h : d.Extends d') (hp : d.locate path = .ok p) :
    d'.locate path = .ok p := by
  unfold Disk.locate at *
  split_ifs at hp with hempty
  rw [if_neg hempty]
  exact h.follow hp

theorem dropWhile_of_head? {l : List String} {s : String} (h : l.head? ≠ some s) :
    l.dropWhile (· == s) = l := by
  cases l with
  | nil => rfl
  | cons t rest => exact List.dropWhile_cons_of_neg (by simpa using h)

/-- The steps of a path that does not end in a slash, as they are taken to make a file. -/
theorem steps_of_lastStep {s : String} (h : d.lastStep path = .ok (p, s, false)) :
    ∃ rest, (start path).2 = rest ++ [s] ∧ s ≠ "" ∧ d.follow (start path).1 rest = .ok p ∧
      d.isDirectoryAt p = true := by
  unfold lastStep at h
  dsimp only at h
  split at h
  · split at h <;> cases h
  · rename_i t rest hsteps
    split at h
    · cases h
    · rename_i place hfollow
      split at h
      · rename_i hdir
        obtain ⟨rfl, rfl, hslash⟩ : place = p ∧ t = s ∧ (start path).2.getLast? ≠ some "" := by
          simpa using h
        -- No empty step is dropped from the end, so these are all the steps.
        rw [dropWhile_of_head? (by rwa [List.head?_reverse])] at hsteps
        have hall : (start path).2 = rest.reverse ++ [t] := by
          rw [← List.reverse_cons, ← hsteps, List.reverse_reverse]
        refine ⟨rest.reverse, hall, ?_, hfollow, hdir⟩
        rintro rfl
        rw [hall] at hslash
        simp at hslash
      · cases h

/-- The path of a new file leads to it as soon as it is there. -/
theorem locate_of_lastStep {s : String} (h : d.lastStep path = .ok (p, s, false))
    (hs : isDots s = false) (hext : d.Extends d') (hnode : (d'.node? (p ++ [s])).isSome = true) :
    d'.locate path = .ok (p ++ [s]) := by
  obtain ⟨rest, hsteps, hname, hfollow, hdir⟩ := steps_of_lastStep h
  have hempty : path.isEmpty = false := by
    by_contra hempty
    rw [Bool.not_eq_false, String.isEmpty_iff] at hempty
    subst hempty
    have hlast := congrArg List.getLast? hsteps
    rw [List.getLast?_concat] at hlast
    exact hname (Option.some.inj hlast).symm
  have hstep : d'.follow p [s] = .ok (p ++ [s]) := by
    simp only [isDots, Bool.or_eq_false_iff, beq_eq_false_iff_ne] at hs
    simp [Disk.follow, hext.directories, hdir, hname, hs, hnode]
  rw [locate, if_neg (ne_true_of_eq_false hempty), hsteps, follow_append, hext.follow hfollow]
  exact hstep

/-- A path leads to a place, and there is a file with a content. -/
def Holds (d : Disk) (path : String) (p : Place) (content : Bytes) : Prop :=
  d.locate path = .ok p ∧ ∃ modified, d.node? p = some (.file content modified)

namespace Holds

theorem contentAt_eq (h : d.Holds path p content) : d.contentAt p = content := by
  obtain ⟨-, modified, hnode⟩ := h
  rw [contentAt, hnode]

theorem isFile (h : d.Holds path p content) : d.isFile path = true := by
  obtain ⟨hlocate, modified, hnode⟩ := h
  rw [Disk.isFile, at?, hlocate]
  dsimp only
  rw [hnode]

/-- The file can be given another content. -/
theorem set (h : d.Holds path p content) (content' : Bytes) (modified : Int) :
    (d.set p (.file content' modified)).Holds path p content' := by
  obtain ⟨hlocate, _, hnode⟩ := h
  have hp : d.node? p ≠ some .directory := by
    rw [hnode]
    nofun
  refine ⟨(extends_set hp _ _).locate hlocate, modified, ?_⟩
  rw [node?_set hp, if_pos rfl]

/-- Bytes written at the end are added to the content. -/
theorem writeAt (h : d.Holds path p content) (data : Bytes) (now : Int) :
    (d.writeAt p content.length data now).Holds path p (content ++ data) := by
  unfold Disk.writeAt
  split
  · rename_i hempty
    rw [List.isEmpty_iff.mp hempty, List.append_nil]
    exact h
  · have hend : overwrite content content.length data = content ++ data := by
      simp [overwrite]
    rw [h.contentAt_eq, hend]
    exact h.set _ _

end Holds

/-- Where a file has been made, there is one. -/
theorem holds_create {now : Int} (h : d.create path now = .ok (p, d')) :
    ∃ content, d'.Holds path p content := by
  unfold create at h
  split at h
  · cases h
  · rename_i place s slash hlast
    split at h
    · cases h
    · rename_i hname
      rw [Bool.not_eq_true, Bool.or_eq_false_iff] at hname
      obtain ⟨rfl, hdots⟩ := hname
      split at h
      · cases h
      · rename_i content modified hnode
        cases h
        refine ⟨content, locate_of_lastStep hlast hdots (.refl d) ?_, modified, hnode⟩
        rw [hnode]
        rfl
      · rename_i hnode
        cases h
        have hnew : d.node? (place ++ [s]) ≠ some .directory := by
          rw [hnode]
          nofun
        have hfile : (d.set (place ++ [s]) (.file [] now)).node? (place ++ [s]) =
            some (.file [] now) := by
          rw [node?_set hnew, if_pos rfl]
        refine ⟨[], locate_of_lastStep hlast hdots (extends_set hnew _ _) ?_, now, hfile⟩
        rw [hfile]
        rfl

end Disk

/-! ## Lines of a content -/

/-- A string that is a line as it stands: it has no line feed and no NUL in it, and no carriage
return at its end. -/
def IsLine (s : Bytes) : Prop := 0x0a ∉ s ∧ 0 ∉ s ∧ s.getLast? ≠ some 0x0d

theorem isLine_nil : IsLine [] := by
  simp [IsLine]

theorem shown_of_isLine {s : Bytes} (h : IsLine s) : shown s = s := by
  rw [← Reader.lineText_eq_shown, Reader.lineText, Bytes.untilNul_of_notMem h.2.1,
    Bytes.dropLastIf_of_ne h.2.2]

/-- Strings with a line feed behind each of them. -/
def terminated (l : List Bytes) : Bytes := l.flatMap (· ++ [0x0a])

theorem segments_terminated {l : List Bytes} (h : ∀ s ∈ l, IsLine s) :
    (segments (terminated l)).map shown = l := by
  induction l with
  | nil => simp [terminated, segments_nil]
  | cons s rest ih =>
    have hs := h s List.mem_cons_self
    have htext : terminated (s :: rest) = s ++ 0x0a :: terminated rest := by
      simp [terminated]
    rw [htext, segments_append hs.1, List.map_cons, shown_of_isLine hs,
      ih fun t ht => h t (List.mem_cons_of_mem s ht)]

/-! ## Opening files -/

section Opening

open QuakeVm.Action

variable {a b : Activation} {name path : String} {mode : FileMode} {place : Place} {disk : Disk}

/-- The entry of a file that has just been opened. -/
def opened (name : String) (mode : FileMode) (place : Place) (disk : Disk) : OpenFile :=
  { name, place, mode, size := (disk.contentAt place).length }

theorem openFile_apply (hpath : Builtins.openPath? name mode a = .ok (some path) b)
    (hplace : Builtins.openPlace b.world path mode = .ok (place, disk)) : ∃ log,
    Builtins.openFile name mode a =
      .ok (some (b.world.files.insert b.machine.role (opened name mode place disk)).1)
        (b.mapWorld fun w => { w with
          files := (w.files.insert b.machine.role (opened name mode place disk)).2, disk, log }) := by
  rw [Builtins.openFile, bind_of_ok hpath]
  dsimp only
  rw [bind_of_ok (world_apply b), hplace]
  exact ⟨_, rfl⟩

/-- A file that was opened has a path and a place. -/
theorem exists_of_openFile {n : Nat} {c : Activation}
    (h : Builtins.openFile name mode a = .ok (some n) c) :
    ∃ path b place disk, Builtins.openPath? name mode a = .ok (some path) b ∧
      Builtins.openPlace b.world path mode = .ok (place, disk) := by
  rw [Builtins.openFile] at h
  obtain ⟨path?, b, hpath, h⟩ := bind_eq_ok.mp h
  cases path? with
  | none => cases h
  | some path =>
    dsimp only at h
    rw [bind_of_ok (world_apply b)] at h
    cases hplace : Builtins.openPlace b.world path mode with
    | error e =>
      rw [hplace] at h
      cases h
    | ok r => exact ⟨path, b, r.1, r.2, hpath, hplace⟩

theorem openPath?_write {b : Activation}
    (h : Builtins.openPath? name .write a = .ok (some path) b) :
    a.world.sandbox.dataPath name = .ok path ∧
      ∃ disk, b = a.mapWorld fun w => { w with disk } := by
  rw [Builtins.openPath?, bind_of_ok (world_apply a)] at h
  cases hwrite : a.world.sandbox.writePath a.world.disk name with
  | error r =>
    rw [hwrite] at h
    dsimp only at h
    cases hcaution : r.caution? <;> rw [hcaution] at h <;> cases h
  | ok r =>
    rw [hwrite] at h
    cases h
    exact ⟨Sandbox.path_of_writePath hwrite, r.2, rfl⟩

end Opening

/-! ## Reading -/

section Reading

open QuakeVm.Action

variable {a : Activation} {name path : String} {place : Place} {content : Bytes} {handle : Int}

/-- The calls for the next line of a file give some lines, one after the other, and then none. -/
def GivesLines (handle : Int) : List Bytes → Activation → Prop
  | [], a => ∃ b, Builtins.nextLine handle a = .ok none b
  | s :: rest, a => ∃ b, Builtins.nextLine handle a = .ok (some s) b ∧ GivesLines handle rest b

theorem nextLine_apply
    (h : FileTable.Reads a.world.disk a.machine.role handle a.world.files content) :
    ∃ files, Builtins.nextLine handle a = .ok ((segments content).map shown)[0]?
        (a.mapWorld fun w => { w with files }) ∧
      FileTable.Reads a.world.disk a.machine.role handle files (afterLine content) := by
  obtain ⟨files, hgets, hreads⟩ := h.getsBy_eq fun _ => Limits.readAhead
  refine ⟨files, ?_, hreads⟩
  rw [Builtins.nextLine, bind_of_ok (world_apply a), bind_of_ok (role_apply a), FileTable.gets,
    hgets]
  rfl

theorem givesLines_of_reads {l : List Bytes}
    (h : FileTable.Reads a.world.disk a.machine.role handle a.world.files content)
    (hl : (segments content).map shown = l) : GivesLines handle l a := by
  induction l generalizing a content with
  | nil =>
    obtain ⟨files, hline, -⟩ := nextLine_apply h
    rw [hl] at hline
    exact ⟨_, hline⟩
  | cons s rest ih =>
    obtain ⟨files, hline, hreads⟩ := nextLine_apply h
    rw [hl] at hline
    refine ⟨_, hline, ih hreads ?_⟩
    rw [segments_afterLine, List.map_tail, hl, List.tail_cons]

/-- A file in the data directory can be opened for reading. -/
theorem openFile_read (hpath : a.world.sandbox.dataPath name = .ok path)
    (h : a.world.disk.Holds path place content) :
    ∃ reader b, Builtins.openFile name .read a = .ok (some reader) b ∧
      FileTable.Reads b.world.disk b.machine.role reader b.world.files content := by
  have hread : a.world.sandbox.readPath a.world.disk name = .ok path := by
    unfold Sandbox.readPath
    rw [hpath]
    dsimp only
    rw [if_pos h.isFile]
  have hopen : Builtins.openPath? name .read a = .ok (some path) a := by
    rw [Builtins.openPath?, bind_of_ok (world_apply a)]
    dsimp only
    rw [hread]
    rfl
  have hplace : Builtins.openPlace a.world path .read = .ok (place, a.world.disk) := by
    rw [Builtins.openPlace, h.1]
    rfl
  obtain ⟨log, hfile⟩ := openFile_apply hopen hplace
  refine ⟨_, _, hfile, ?_⟩
  rw [← h.contentAt_eq]
  exact FileTable.reads_insert a.world.files a.world.disk a.machine.role name place

end Reading

/-! ## Writing -/

/-- A file was opened for writing by its path, and a content has been written to it since. -/
def FileTable.Wrote (d : Disk) (owner : Role) (handle : Int) (t : FileTable) (path : String)
    (content : Bytes) : Prop :=
  ∃ f, t.get owner handle = .ok f ∧ f.mode = .write ∧ f.written = content.length ∧
    d.Holds path f.place content

theorem FileTable.Wrote.write_eq {d : Disk} {owner : Role} {handle : Int} {t : FileTable}
    {path : String} {content : Bytes} (h : Wrote d owner handle t path content) (s : Bytes)
    (now : Int) : ∃ t' d', t.write d owner handle s now = .ok (t', d') ∧
      Wrote d' owner handle t' path (content ++ s) := by
  obtain ⟨f, hget, hmode, hwritten, hholds⟩ := h
  obtain ⟨n, rfl, hn⟩ := OwnedTable.exists_index (OwnedTable.get_eq_ok.mp hget)
  have hoffset : writeOffset d f = content.length := by
    rw [writeOffset, hmode, hwritten]
    rfl
  unfold write
  rw [find_eq_ok.mpr hget]
  dsimp only
  rw [hoffset, if_neg (by rw [hmode]; nofun)]
  refine ⟨_, _, rfl, _, OwnedTable.get_put_self hn _, hmode, ?_, hholds.writeAt s now⟩
  rw [List.length_append, ← hwritten]

section Writing

open QuakeVm.Action

variable {a b : Activation} {name path : String} {content : Bytes} {file : Int}

theorem writeFile_of_ok {s : Bytes} {files : FileTable} {disk : Disk}
    (h : a.world.files.write a.world.disk a.machine.role file s a.world.now = .ok (files, disk)) :
    Builtins.writeFile file s a = .ok true (a.mapWorld fun w => { w with files, disk }) := by
  rw [Builtins.writeFile, bind_of_ok (world_apply a), bind_of_ok (role_apply a), h]
  rfl

theorem writeLines_apply
    (h : FileTable.Wrote a.world.disk a.machine.role file a.world.files path content)
    (l : List Bytes) : ∃ files disk,
    Builtins.writeLines file l a = .ok true (a.mapWorld fun w => { w with files, disk }) ∧
      FileTable.Wrote disk a.machine.role file files path (content ++ terminated l) := by
  induction l generalizing a content with
  | nil =>
    refine ⟨a.world.files, a.world.disk, rfl, ?_⟩
    simpa [terminated] using h
  | cons s rest ih =>
    obtain ⟨files, disk, hwrite, hwrote⟩ := h.write_eq (s ++ [0x0a]) a.world.now
    have hline := writeFile_of_ok hwrite
    obtain ⟨files', disk', hlines, hwrote'⟩ :=
      ih (a := a.mapWorld fun w => { w with files, disk }) hwrote
    have htext : content ++ (s ++ [0x0a]) ++ terminated rest =
        content ++ terminated (s :: rest) := by
      simp [terminated]
    refine ⟨files', disk', ?_, htext ▸ hwrote'⟩
    rw [Builtins.writeLines, bind_of_ok hline]
    exact hlines

theorem holds_of_openPlace {w : World} {place : Place} {disk : Disk}
    (h : Builtins.openPlace w path .write = .ok (place, disk)) : disk.Holds path place [] := by
  unfold Builtins.openPlace at h
  cases hcreate : w.disk.create path w.now with
  | error e =>
    rw [hcreate] at h
    cases h
  | ok r =>
    rw [hcreate] at h
    cases h
    obtain ⟨content, hholds⟩ := Disk.holds_create hcreate
    exact hholds.set [] w.now

/-- A file that was opened for writing is empty, and its path leads to it. -/
theorem wrote_of_openFile {n : Nat} (h : Builtins.openFile name .write a = .ok (some n) b) :
    ∃ path, a.world.sandbox.dataPath name = .ok path ∧
      FileTable.Wrote b.world.disk b.machine.role n b.world.files path [] := by
  obtain ⟨path, c, place, disk, hpath, hplace⟩ := exists_of_openFile h
  obtain ⟨log, hfile⟩ := openFile_apply hpath hplace
  obtain ⟨hdata, disk', rfl⟩ := openPath?_write hpath
  rw [h] at hfile
  cases hfile
  exact ⟨path, hdata, _, OwnedTable.get_eq_ok.mpr (FileTable.slot?_insert _ _ _).2, rfl, rfl,
    holds_of_openPlace hplace⟩

end Writing

/-! ## Writing a buffer and reading it back -/

/-- The strings of a buffer from an index on, at most some number of them and all without one, with
the empty string for a hole. -/
def Buffer.excerpt (b : Buffer) (start : Nat) (count? : Option Nat) : List Bytes :=
  (List.range (min (count?.getD b.size) (b.size - start))).map fun i =>
    (b.get? (start + i : Nat)).getD []

theorem Buffer.range_eq_excerpt (b : Buffer) (start : Nat) (count? : Option Nat) :
    b.range start count? = b.excerpt start count? := by
  have hall : (b.strings.toList.drop start).map (·.getD []) =
      (List.range (b.size - start)).map fun i => (b.get? (start + i : Nat)).getD [] := by
    apply List.ext_getElem
    · simp [size]
    · intro i hi _
      have hlt : start + i < b.strings.size := by
        simp at hi
        omega
      -- `get?_natCast` is about the cast of the sum, which a plain `simp` would push inside.
      simp only [List.getElem_map, List.getElem_drop, List.getElem_range, get?_natCast,
        Array.getElem?_eq_getElem hlt, Option.getD_some, Array.getElem_toList]
  unfold range excerpt
  rw [hall]
  cases count? with
  | none => simp
  | some n => simp [← List.map_take, List.take_range]

/-- A program calls for strings of a buffer to be written to a file: the file, the buffer, where to
begin, and how many strings, or all of them. -/
structure Activation.RequestsWrite (a : Activation) (file buffer : Int) (start : Nat)
    (count? : Option Nat) : Prop where
  file : Number.toInt32 (a.machine.registers.float (parameter 0)) = file
  buffer : Number.toInt32 (a.machine.registers.float (parameter 1)) = buffer
  start : Number.toSize (a.machine.registers.float (parameter 2)) = start
  count : (if 3 < a.machine.argumentCount then
    some (Number.toSize (a.machine.registers.float (parameter 3))) else none) = count?

open QuakeVm.Action in
theorem bufWritefile_of_requestsWrite {a : Activation} {file handle : Int} {start : Nat}
    {count? : Option Nat} {b : Buffer} (h : a.RequestsWrite file handle start count?)
    (hb : a.buffer? handle = some b) :
    Builtins.bufWritefile a =
      (Builtins.writeLines file (b.excerpt start count?) >>= returnFlag) a := by
  have hsingle : singleArgument 3 a = .ok (a.machine.registers.float (parameter 3)) a := rfl
  have hcount : argumentCount a = .ok a.machine.argumentCount a := rfl
  have hrange : Builtins.bufferRange handle start count? a = .ok (some (b.range start count?)) a :=
    findBuffer_bind hb _ _
  rw [Builtins.bufWritefile_apply, h.file, h.buffer, h.start, Builtins.writeStrings,
    bind_of_ok hsingle, bind_of_ok hcount, h.count, bind_of_ok hrange, Buffer.range_eq_excerpt]

theorem isLine_of_mem_excerpt {b : Buffer} (h : ∀ i s, b.get? i = some s → IsLine s) {start : Nat}
    {count? : Option Nat} : ∀ s ∈ b.excerpt start count?, IsLine s := by
  intro s hs
  obtain ⟨i, -, rfl⟩ := List.mem_map.mp hs
  cases hget : b.get? (start + i : Nat) with
  | none => exact isLine_nil
  | some s => exact h _ s hget

/-- A program has gone on, but it has opened, closed, read and written no file. -/
structure Activation.LeavesFiles (a b : Activation) : Prop where
  role : b.machine.role = a.machine.role
  files : b.world.files = a.world.files
  disk : b.world.disk = a.world.disk

open QuakeVm.Action in
/-- **A buffer that was written to a file is read back line by line.** A program opens a file for
writing and writes strings of a buffer to it, from any index on, some number of them or all. The
strings are lines as they stand. Whoever then opens the file for reading and asks for the next line
again and again gets exactly these strings, in their order, a hole as the empty string, and then
none. -/
theorem written_lines_read_back {a a' c : Activation} {name : String} {file : Nat} {handle : Int}
    {start : Nat} {count? : Option Nat} {b : Buffer}
    (hopen : Builtins.openFile name .write a = .ok (some file) a') (hleaves : a'.LeavesFiles c)
    (hcall : c.RequestsWrite file handle start count?) (hb : c.buffer? handle = some b)
    (hlines : ∀ i s, b.get? i = some s → IsLine s) : ∃ files disk,
    Builtins.bufWritefile c = returnFlag true (c.mapWorld fun w => { w with files, disk }) ∧
      ∀ r : Activation, r.world.disk = disk → r.world.sandbox = a.world.sandbox →
        ∃ reader r', Builtins.openFile name .read r = .ok (some reader) r' ∧
          GivesLines reader (b.excerpt start count?) r' := by
  obtain ⟨path, hpath, hwrote⟩ := wrote_of_openFile hopen
  rw [← hleaves.role, ← hleaves.files, ← hleaves.disk] at hwrote
  obtain ⟨files, disk, hwrite, f, -, -, -, hholds⟩ :=
    writeLines_apply hwrote (b.excerpt start count?)
  refine ⟨files, disk, ?_, ?_⟩
  · rw [bufWritefile_of_requestsWrite hcall hb, bind_of_ok hwrite]
  · intro r hdisk hsandbox
    rw [← hdisk] at hholds
    rw [← hsandbox] at hpath
    obtain ⟨reader, r', hread, hreads⟩ := openFile_read hpath hholds
    exact ⟨reader, r', hread,
      givesLines_of_reads hreads (segments_terminated (isLine_of_mem_excerpt hlines))⟩

/-- Two strings with a hole between them. -/
def drafts : Buffer := ⟨#[some [0x78], none, some [0x79]]⟩

/-- A server with one buffer, on an empty disk. The registers have the arguments to write the strings
of the buffer to the first file that is opened. -/
def drafting : Activation where
  machine := { loading.machine with
    registers := ⟨#[0, 0, 0, 0, 0, 0, 0, 0x3f800000, 0, 0, 0, 0, 0]⟩, argumentCount := 3 }
  world := { World.new "game" .empty with buffers := ⟨#[some ⟨.server, drafts⟩]⟩ }

theorem openPath?_drafting : Builtins.openPath? "out" .write drafting =
    .ok (some "game/data/out") (drafting.mapWorld fun w =>
      { w with disk := ⟨[(["game"], .directory), (["game", "data"], .directory)]⟩ }) := by
  have hwrite : drafting.world.sandbox.writePath drafting.world.disk "out" = .ok ("game/data/out",
      ⟨[(["game"], .directory), (["game", "data"], .directory)]⟩) := by
    decide +kernel
  rw [Builtins.openPath?, Action.bind_of_ok (Action.world_apply drafting)]
  dsimp only
  rw [hwrite]
  rfl

theorem requestsWrite_drafting {a : Activation} (h : a.machine = drafting.machine) :
    a.RequestsWrite 0 1 0 none where
  file := by rw [h]; decide +kernel
  buffer := by rw [h]; decide +kernel
  start := by rw [h]; decide +kernel
  count := by rw [h]; rfl

theorem isLine_drafts (i : Int) (s : Bytes) (h : drafts.get? i = some s) : IsLine s := by
  obtain ⟨hlow, hhigh⟩ : 0 ≤ i ∧ i < 3 := Buffer.index_of_get? h
  obtain rfl | rfl | rfl : i = 0 ∨ i = 1 ∨ i = 2 := by omega
  · cases h
    exact ⟨by decide, by decide, by decide⟩
  · cases h
  · cases h
    exact ⟨by decide, by decide, by decide⟩

theorem openFile_drafting : ∃ a, Builtins.openFile "out" .write drafting = .ok (some 0) a ∧
    a.machine = drafting.machine ∧ a.world.sandbox = drafting.world.sandbox ∧
      a.buffer? 1 = some drafts := by
  have hplace : Builtins.openPlace (drafting.mapWorld fun w =>
      { w with disk := ⟨[(["game"], .directory), (["game", "data"], .directory)]⟩ }).world
      "game/data/out" .write = .ok (["game", "data", "out"],
        ⟨[(["game"], .directory), (["game", "data"], .directory),
          (["game", "data", "out"], .file [] 0)]⟩) := by
    decide +kernel
  obtain ⟨log, hopen⟩ := openFile_apply openPath?_drafting hplace
  have hfirst (f : OpenFile) : some (drafting.world.files.insert .server f).1 = some 0 := by
    simp [drafting, World.new, FileTable.insert, OwnedTable.free?, OwnedTable.empty,
      OwnedTable.size]
  exact ⟨_, hopen.trans (congrArg (EStateM.Result.ok · _) (hfirst _)), rfl, rfl, rfl⟩

/-- The hole between the two strings comes back as an empty line. -/
theorem written_lines_read_back_drafting : ∃ a files disk,
    Builtins.openFile "out" .write drafting = .ok (some 0) a ∧ a.buffer? 1 = some drafts ∧
      Builtins.bufWritefile a =
        Action.returnFlag true (a.mapWorld fun w => { w with files, disk }) ∧
      ∃ reader b, Builtins.openFile "out" .read (a.mapWorld fun w => { w with files, disk }) =
        .ok (some reader) b ∧ GivesLines reader [[0x78], [], [0x79]] b := by
  obtain ⟨a, hopen, hmachine, hsandbox, hbuffer⟩ := openFile_drafting
  have hleaves : a.LeavesFiles a := ⟨rfl, rfl, rfl⟩
  obtain ⟨files, disk, hwrite, hread⟩ :=
    written_lines_read_back hopen hleaves (requestsWrite_drafting hmachine) hbuffer isLine_drafts
  exact ⟨a, files, disk, hopen, hbuffer, hwrite, hread _ rfl hsandbox⟩

end QuakeVm
