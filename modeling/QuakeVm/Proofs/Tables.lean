import QuakeVm.Builtin.Storage
import QuakeVm.Proofs.Action

/-!
# Work on the shared tables

Every operation on files, searches and string buffers ends with a result, leaves the machine as it is,
and uses the world as the role of the machine may: entries of the other role stay (`Bookkeeping`).

Most steps of an operation are of this kind by themselves. To put a buffer back is so only for a handle
that gave one, so the rules for `findBuffer` speak of the activation in which the buffer was found.
-/

namespace QuakeVm

open QuakeVm.Action Activation

/-! ## What the tables do -/

namespace FileTable

variable {t t' : FileTable} {owner : Role} {handle : Int}

theorem find_eq_ok {operation : String} {f : OpenFile} :
    t.find owner handle operation = .ok f ↔ t.get owner handle = .ok f := by
  unfold find
  cases t.get owner handle <;> simp

theorem keepsOthers_insert (t : FileTable) (owner : Role) (f : OpenFile) :
    t.KeepsOthers owner (t.insert owner f).2 := by
  unfold insert
  cases hfree : t.free? with
  | some i => exact OwnedTable.keepsOthers_put_of_free hfree f
  | none =>
    refine (OwnedTable.keepsOthers_grow owner t Limits.fileGrowth).trans
      (OwnedTable.keepsOthers_put ?_ (fun e he => ?_) f)
    · rw [OwnedTable.size_grow]
      exact Nat.lt_add_of_pos_right (by decide)
    · rw [OwnedTable.slot?_grow, OwnedTable.slot?_of_size_le t (Nat.le_refl _)] at he
      cases he

/-- The handle of a new file was free. -/
theorem slot?_insert (t : FileTable) (owner : Role) (f : OpenFile) :
    t.slot? (t.insert owner f).1 = none ∧
      (t.insert owner f).2.slot? (t.insert owner f).1 = some ⟨owner, f⟩ := by
  unfold insert
  cases hfree : t.free? with
  | some i =>
    obtain ⟨hi, hnone⟩ := OwnedTable.free?_eq_some hfree
    exact ⟨hnone, OwnedTable.slot?_put_self t hi owner f⟩
  | none =>
    refine ⟨OwnedTable.slot?_of_size_le t (Nat.le_refl _), OwnedTable.slot?_put_self _ ?_ owner f⟩
    rw [OwnedTable.size_grow]
    exact Nat.lt_add_of_pos_right (by decide)

theorem keepsOthers_close (h : t.close owner handle = .ok t') : t.KeepsOthers owner t' := by
  unfold close at h
  cases hfind : t.find owner handle "fclose" with
  | error e => rw [hfind] at h; cases h
  | ok f =>
    rw [hfind] at h
    cases h
    exact OwnedTable.keepsOthers_erase_of_get (find_eq_ok.mp hfind)

theorem keepsOthers_gets {d : Disk} {line : Option Bytes}
    (h : t.gets d owner handle = .ok (line, t')) : t.KeepsOthers owner t' := by
  unfold gets getsBy at h
  cases hfind : t.find owner handle "fgets" with
  | error e => rw [hfind] at h; cases h
  | ok f =>
    rw [hfind] at h
    dsimp only at h
    split at h
    · cases h
    · cases h
      exact OwnedTable.keepsOthers_put_of_get (find_eq_ok.mp hfind) _

theorem keepsOthers_write {d d' : Disk} {data : Bytes} {now : Int}
    (h : t.write d owner handle data now = .ok (t', d')) : t.KeepsOthers owner t' := by
  unfold write at h
  cases hfind : t.find owner handle "fputs" with
  | error e => rw [hfind] at h; cases h
  | ok f =>
    rw [hfind] at h
    dsimp only at h
    split at h
    · cases h
    · cases h
      exact OwnedTable.keepsOthers_put_of_get (find_eq_ok.mp hfind) _

end FileTable

namespace SearchTable

variable {t t' : SearchTable} {owner : Role}

theorem find_eq_ok {handle : Int} {operation : String} {files : List FoundFile} :
    t.find owner handle operation = .ok files ↔ t.get owner handle = .ok files := by
  unfold find
  cases t.get owner handle <;> simp

/-- A search that begins takes a free slot. -/
theorem start_eq_ok {s : Sandbox} {d : Disk} {pattern : String} {ignoreCase : Bool} {n count : Nat}
    (h : t.start s d owner pattern ignoreCase = .ok (n, count, t')) :
    t.free? = some n ∧ ∃ files, t' = t.put n owner files := by
  unfold start at h
  split at h
  · cases h
  cases hfree : t.free? with
  | none => rw [hfree] at h; cases h
  | some i =>
    rw [hfree] at h
    dsimp only at h
    split at h
    · cases h
    · split at h
      · cases h
      · cases h
        exact ⟨rfl, _, rfl⟩

end SearchTable

namespace BufferTable

variable {t t' : BufferTable} {owner : Role}

theorem find_eq_ok {handle : Int} {operation : String} {b : Buffer} :
    t.find owner handle operation = .ok b ↔ t.get owner (handle - 1) = .ok b := by
  unfold find
  cases t.get owner (handle - 1) <;> simp

/-- A new buffer takes a free slot. -/
theorem create?_eq_some {n : Nat} (h : t.create? owner = some (n, t')) :
    ∃ i, n = i + 1 ∧ t.free? = some i ∧ t' = t.put i owner {} := by
  unfold create? at h
  cases hfree : t.free? with
  | none => rw [hfree] at h; cases h
  | some i =>
    rw [hfree] at h
    cases h
    exact ⟨i, rfl, rfl, rfl⟩

end BufferTable

/-! ## Bookkeeping -/

namespace Action

section Rules

variable {α β : Type} {a : Activation}

/-- From an activation on, an action ends with a result, and all that it does is to use the world. -/
def Books (x : Action α) (a : Activation) : Prop :=
  ∃ v w, x a = .ok v { a with world := w } ∧ a.world.Uses a.machine.role w

/-- An action that does nothing but to use the world, whenever it is done. -/
class Bookkeeping (x : Action α) : Prop where
  books : ∀ a, x.Books a

instance (priority := low) (x : Action α) [hx : Bookkeeping x] : Confined x where
  effects {writable} a := by
    obtain ⟨v, w, h, huses⟩ := hx.books a
    rw [final, h]
    exact (Effect.world a w huses).effects

/-- An action that only looks. -/
theorem Books.of_apply {x : Action α} {v : α} (h : x a = .ok v a) : x.Books a :=
  ⟨v, a.world, h, .refl _ _⟩

theorem Books.bind {x : Action α} {f : α → Action β} (hx : x.Books a)
    (hf : ∀ v, Bookkeeping (f v)) : (x >>= f).Books a := by
  obtain ⟨v, w, h, huses⟩ := hx
  obtain ⟨u, w', h', huses'⟩ := (hf v).books { a with world := w }
  refine ⟨u, w', ?_, huses.trans huses'⟩
  rw [bind_apply, h]
  exact h'

instance (v : α) : Bookkeeping (pure v : Action α) := ⟨fun _ => .of_apply rfl⟩

instance (x : Action α) (f : α → Action β) [hx : Bookkeeping x] [hf : ∀ v, Bookkeeping (f v)] :
    Bookkeeping (x >>= f) :=
  ⟨fun a => (hx.books a).bind hf⟩

theorem Bookkeeping.bind {x : Action α} {f : α → Action β} (_ : Bookkeeping x)
    (_ : ∀ v, Bookkeeping (f v)) : Bookkeeping (x >>= f) := inferInstance

instance (c : Prop) [Decidable c] (x y : Action α) [Bookkeeping x] [Bookkeeping y] :
    Bookkeeping (if c then x else y) := by
  split <;> infer_instance

instance : Bookkeeping world := ⟨fun _ => .of_apply rfl⟩

instance : Bookkeeping role := ⟨fun _ => .of_apply rfl⟩

theorem Bookkeeping.of_world {f : World → Action α} (h : ∀ a, (f a.world).Books a) :
    Bookkeeping (world >>= f) :=
  ⟨h⟩

/-- An action that looks at the world and at its role first. -/
theorem Bookkeeping.of_world_role {f : World → Role → Action α}
    (h : ∀ a, (f a.world a.machine.role).Books a) :
    Bookkeeping (world >>= fun w => role >>= fun r => f w r) :=
  ⟨h⟩

theorem Books.modifyWorld {f : World → World} (h : a.world.Uses a.machine.role (f a.world)) :
    (modifyWorld f).Books a :=
  ⟨(), f a.world, rfl, h⟩

instance (disk : World → Disk) (log : World → Log) :
    Bookkeeping (Action.modifyWorld fun w => { w with disk := disk w, log := log w }) :=
  ⟨fun _ => .modifyWorld (World.uses_common _ _ _ _ _ _ _ _)⟩

instance (level : Level) (text : Unit → String) : Bookkeeping (record level text) := by
  unfold record
  infer_instance

instance (text : String) : Bookkeeping (caution text) := by
  unfold caution World.caution
  infer_instance

end Rules

end Action

namespace Builtins

/-! ## Files -/

section Files

variable {α β : Type}

/-- What has been given is there without any change; a refusal leaves nothing but a caution. -/
theorem books_orCaution {x : Except String α} {f : Option α → Action β} {a : Activation}
    (hok : ∀ v, x = .ok v → (f (some v)).Books a) (hrefused : Bookkeeping (f none)) :
    (orCaution x >>= f).Books a := by
  cases x with
  | ok v => exact hok v rfl
  | error text => exact ((inferInstance : Bookkeeping (caution text >>= fun _ => f none)).books a)

instance (x : Except String α) : Bookkeeping (orCaution x) := by
  cases x <;> unfold orCaution <;> infer_instance

theorem books_orRefusal {x : Except FileRefusal α} {f : Option α → Action β} {a : Activation}
    (hok : ∀ v, x = .ok v → (f (some v)).Books a) (hrefused : Bookkeeping (f none)) :
    (orRefusal x >>= f).Books a := by
  refine books_orCaution (fun v hv => hok v ?_) hrefused
  cases x with
  | ok u => cases hv; rfl
  | error e => cases hv

instance (name : String) (mode : FileMode) : Bookkeeping (openPath? name mode) := by
  unfold openPath?
  refine .bind inferInstance fun w => ?_
  cases mode with
  | read =>
    dsimp only
    cases w.sandbox.readPath w.disk name with
    | ok path => infer_instance
    | error r => dsimp only; cases r.caution? <;> infer_instance
  | append | write =>
    dsimp only
    cases w.sandbox.writePath w.disk name with
    | ok r => infer_instance
    | error r => dsimp only; cases r.caution? <;> infer_instance

instance (name : String) (mode : FileMode) : Bookkeeping (openFile name mode) := by
  unfold openFile
  refine .bind inferInstance fun path? => ?_
  cases path? with
  | none => infer_instance
  | some path =>
    refine .of_world fun a => ?_
    cases openPlace a.world path mode with
    | error e => exact Bookkeeping.books a
    | ok r =>
      obtain ⟨place, disk⟩ := r
      have hinsert := FileTable.keepsOthers_insert a.world.files a.machine.role
        { name, place, mode, size := (disk.contentAt place).length }
      refine ⟨some _, _, rfl, ?_⟩
      exact (World.uses_files hinsert disk).trans (World.uses_common _ _ _ _ _ _ _ _)

instance (handle : Int) : Bookkeeping (closeFile handle) := by
  unfold closeFile
  refine .of_world_role fun a => books_orRefusal (fun files h => ?_) inferInstance
  exact (Books.modifyWorld (World.uses_files (FileTable.keepsOthers_close h) _)).bind
    fun _ => inferInstance

instance (handle : Int) : Bookkeeping (nextLine handle) := by
  unfold nextLine
  refine .of_world_role fun a => books_orRefusal (fun r h => ?_) inferInstance
  obtain ⟨line, files⟩ := r
  exact (Books.modifyWorld (World.uses_files (FileTable.keepsOthers_gets h) _)).bind
    fun _ => inferInstance

instance (handle : Int) (s : Bytes) : Bookkeeping (writeFile handle s) := by
  unfold writeFile
  refine .of_world_role fun a => books_orRefusal (fun r h => ?_) inferInstance
  obtain ⟨files, disk⟩ := r
  exact (Books.modifyWorld (World.uses_files (FileTable.keepsOthers_write h) _)).bind
    fun _ => inferInstance

end Files

/-! ## Searches -/

section Searches

instance (pattern : String) (ignoreCase quiet : Bool) :
    Bookkeeping (startSearch pattern ignoreCase quiet) := by
  unfold startSearch
  refine .of_world_role fun a => ?_
  cases h : a.world.searches.start a.world.sandbox a.world.disk a.machine.role pattern ignoreCase with
  | error refusal =>
    dsimp only
    cases refusal.caution? <;> exact Bookkeeping.books a
  | ok r =>
    obtain ⟨handle, count, searches⟩ := r
    obtain ⟨hfree, files, rfl⟩ := SearchTable.start_eq_ok h
    -- The record comes first; the table is still the one that was looked at.
    refine ⟨some handle, _, rfl, ?_⟩
    exact (World.uses_common _ _ _ _ _ _ _ _).trans
      (World.uses_searches (OwnedTable.keepsOthers_put_of_free hfree files))

instance (handle : Int) (operation : String) : Bookkeeping (findSearch handle operation) := by
  unfold findSearch
  infer_instance

instance (handle : Int) : Bookkeeping (endSearch handle) := by
  unfold endSearch
  refine ⟨fun a => books_orCaution (fun files h => ?_) (inferInstanceAs (Bookkeeping (pure false)))⟩
  exact (Books.modifyWorld (World.uses_searches
    (OwnedTable.keepsOthers_erase_of_get (SearchTable.find_eq_ok.mp h)))).bind fun _ => inferInstance

instance (handle : Int) : Bookkeeping (searchSize handle) := by
  unfold searchSize
  infer_instance

instance (handle index : Int) (operation : String) :
    Bookkeeping (searchFile handle index operation) := by
  unfold searchFile
  infer_instance

end Searches

/-! ## String buffers -/

section Buffers

variable {α : Type} {a : Activation} {handle : Int} {operation : String}

instance (handle : Int) (operation : String) : Bookkeeping (findBuffer handle operation) := by
  unfold findBuffer
  infer_instance

/-- An action that looks for a buffer first may do to that buffer what is bookkeeping where it was
found. -/
theorem bookkeeping_findBuffer {f : Option Buffer → Action α}
    (hfound : ∀ a b, a.world.buffers.find a.machine.role handle operation = .ok b →
      (f (some b)).Books a)
    (hnone : Bookkeeping (f none)) : Bookkeeping (findBuffer handle operation >>= f) :=
  ⟨fun a => books_orCaution (hfound a) hnone⟩

theorem books_putBuffer {b : Buffer}
    (h : a.world.buffers.find a.machine.role handle operation = .ok b) (b' : Buffer) :
    (putBuffer handle b').Books a :=
  ⟨(), _, rfl,
    World.uses_buffers (OwnedTable.keepsOthers_put_of_get (BufferTable.find_eq_ok.mp h) b')⟩

instance : Bookkeeping createBuffer := by
  unfold createBuffer
  refine .of_world_role fun a => ?_
  cases h : a.world.buffers.create? a.machine.role with
  | none => exact Bookkeeping.books a
  | some r =>
    obtain ⟨n, buffers⟩ := r
    obtain ⟨i, -, hfree, rfl⟩ := BufferTable.create?_eq_some h
    exact (Books.modifyWorld (World.uses_buffers (OwnedTable.keepsOthers_put_of_free hfree _))).bind
      fun _ => inferInstance

instance (handle : Int) : Bookkeeping (deleteBuffer handle) := by
  unfold deleteBuffer
  refine bookkeeping_findBuffer (fun a b h => ?_) (inferInstanceAs (Bookkeeping (pure false)))
  exact (Books.modifyWorld (World.uses_buffers
    (OwnedTable.keepsOthers_erase_of_get (BufferTable.find_eq_ok.mp h)))).bind fun _ => inferInstance

instance (handle : Int) : Bookkeeping (bufferSize handle) := by
  unfold bufferSize
  infer_instance

instance (handle : Int) (operation : String) (f : Buffer → Buffer) :
    Bookkeeping (changeBuffer handle operation f) := by
  unfold changeBuffer
  exact bookkeeping_findBuffer (fun a b h => (books_putBuffer h _).bind fun _ => inferInstance)
    inferInstance

instance (source target : Int) : Bookkeeping (copyBuffer source target) := by
  unfold copyBuffer
  refine .bind inferInstance fun b? => ?_
  cases b? <;> infer_instance

instance (handle length : Int) (backward : Bool) :
    Bookkeeping (sortBuffer handle length backward) := by
  unfold sortBuffer
  infer_instance

instance (handle : Int) (glue : Bytes) : Bookkeeping (implodeBuffer handle glue) := by
  unfold implodeBuffer
  refine .bind inferInstance fun b? => ?_
  cases b? <;> infer_instance

instance (handle index : Int) : Bookkeeping (bufferString handle index) := by
  unfold bufferString
  infer_instance

theorem books_storeString {b : Buffer}
    (h : a.world.buffers.find a.machine.role handle operation = .ok b) (b' : Buffer) (index : Nat)
    (s : Bytes) (operation' : String) : (storeString handle b' index s operation').Books a := by
  unfold Builtins.storeString
  cases b'.set? index s with
  | none => exact Bookkeeping.books a
  | some b' => exact (books_putBuffer h b').bind fun _ => inferInstance

instance (handle index : Int) (s : Bytes) : Bookkeeping (setString handle index s) := by
  unfold setString
  split
  · infer_instance
  · exact bookkeeping_findBuffer (fun a b h => books_storeString h _ _ _ _) inferInstance

instance (handle : Int) (s : Bytes) (atEnd : Bool) : Bookkeeping (addString handle s atEnd) := by
  unfold addString
  exact bookkeeping_findBuffer
    (fun a b h => (books_storeString h _ _ _ _).bind fun _ => inferInstance) inferInstance

instance (handle index : Int) : Bookkeeping (freeString handle index) := by
  unfold freeString
  refine bookkeeping_findBuffer (fun a b h => ?_) inferInstance
  dsimp only
  cases b.remove? index with
  | none => exact Bookkeeping.books a
  | some b' => exact (books_putBuffer h b').bind fun _ => inferInstance

instance (handle : Int) (text : Bytes) : Bookkeeping (addLines handle text) := by
  unfold addLines
  refine bookkeeping_findBuffer (fun a b h => (books_putBuffer h _).bind fun _ => ?_) inferInstance
  dsimp only
  split <;> infer_instance

instance (handle : Int) (start : Nat) (count? : Option Nat) :
    Bookkeeping (bufferRange handle start count?) := by
  unfold bufferRange
  infer_instance

instance (handle : Int) (strings : List Bytes) (operation : String) :
    Bookkeeping (replaceBuffer handle strings operation) := by
  unfold replaceBuffer
  infer_instance

end Buffers

end Builtins

end QuakeVm
