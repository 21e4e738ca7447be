import QuakeVm.Proofs.Lines
import Mathlib.Data.List.DropRight
import Mathlib.Logic.Function.Basic

/-!
# String buffers are finite maps

A buffer is an array of strings with holes. Setting a string behind the end makes holes, adding one
fills the first hole, and removing one takes the holes at the end away. To a program none of this shows:
it sees maps from indices to strings (`Activation.maps`), and each operation does to the maps what its
name says (`RefinesMaps`).

What gives the size its meaning is that no buffer ends in a hole (`Trimmed`). Only one operation takes
holes away, but the others make none at the end: `trimmed_after` shows it for one operation and
`trimmed_edited` for a run of them.
-/

namespace QuakeVm

namespace Buffer

variable {b c : Buffer} {s : Bytes}

/-! ## Strings by their index -/

theorem get?_natCast (b : Buffer) (n : Nat) : b.get? n = b.strings[n]?.getD none := by
  unfold get?
  rw [if_neg (by omega), Int.toNat_natCast, Array.getD_eq_getD_getElem?]

theorem get?_of_neg (b : Buffer) {i : Int} (h : i < 0) : b.get? i = none := by
  unfold get?
  rw [if_pos h]

theorem get?_of_size_le (b : Buffer) {i : Int} (h : b.size ≤ i) : b.get? i = none := by
  obtain ⟨n, rfl⟩ := Int.eq_ofNat_of_zero_le (a := i) (by omega)
  rw [get?_natCast, Array.getElem?_eq_none (Int.ofNat_le.mp h), Option.getD_none]

theorem index_of_get? {i : Int} (h : b.get? i = some s) : 0 ≤ i ∧ i < b.size := by
  constructor
  · by_contra hneg
    rw [get?_of_neg b (by omega)] at h
    cases h
  · by_contra hsize
    rw [get?_of_size_le b (by omega)] at h
    cases h

/-- A buffer is known by its strings from zero on. -/
theorem get?_eq_of_natCast {f : Int → Option Bytes} (hneg : ∀ i < 0, f i = none)
    (h : ∀ n : Nat, b.get? n = f n) : b.get? = f := by
  funext i
  by_cases hi : i < 0
  · rw [get?_of_neg b hi, hneg i hi]
  · obtain ⟨n, rfl⟩ := Int.eq_ofNat_of_zero_le (Int.not_lt.mp hi)
    exact h n

/-- A buffer grows to hold the index that is set, and does not shrink. -/
theorem size_set? {i : Nat} (h : b.set? i s = some c) : c.size = max b.size (i + 1) := by
  unfold set? at h
  split at h
  · cases h
  · cases h
    simp only [size, Array.size_setIfInBounds, Array.size_append, Array.size_replicate]
    omega

/-- A string that is set is read at its index, and nowhere else is anything new. -/
theorem get?_set? {i : Nat} (h : b.set? i s = some c) :
    c.get? = Function.update b.get? i (some s) := by
  unfold set? at h
  split at h
  · cases h
  · cases h
    refine get?_eq_of_natCast (fun j hj => ?_) fun n => ?_
    · rw [Function.update_of_ne (by omega), get?_of_neg b hj]
    · by_cases hn : n = i
      · subst hn
        rw [Function.update_self, get?_natCast]
        grind
      · rw [Function.update_of_ne (by omega), get?_natCast, get?_natCast]
        grind

/-- Dropping holes at the end of an array drops them at the end of the list. -/
theorem popWhile_toArray (l : List (Option Bytes)) :
    l.toArray.popWhile (·.isNone) = (l.rdropWhile (·.isNone)).toArray := by
  rw [List.popWhile_toArray]
  rfl

/-- Holes at the end show nothing, so that it makes no difference if they go. -/
theorem getElem?_popWhile (xs : Array (Option Bytes)) (n : Nat) :
    (xs.popWhile (·.isNone))[n]?.getD none = xs[n]?.getD none := by
  obtain ⟨l⟩ := xs
  rw [popWhile_toArray, List.getElem?_toArray, List.getElem?_toArray]
  conv_rhs => rw [← List.rdropWhile_append_rtakeWhile (p := (·.isNone)) (l := l)]
  rw [List.getElem?_append]
  split
  · rfl
  · rename_i hn
    rw [List.getElem?_eq_none (Nat.not_lt.mp hn)]
    cases htail : (l.rtakeWhile (·.isNone))[n - (l.rdropWhile (·.isNone)).length]? with
    | none => rfl
    | some x =>
      have hx := List.mem_rtakeWhile_imp (List.mem_of_getElem? htail)
      exact (Option.isNone_iff_eq_none.mp hx).symm

/-- A string can be removed from the places of the buffer. -/
theorem remove?_eq_none_iff {i : Int} : b.remove? i = none ↔ i < 0 ∨ b.size ≤ i := by
  simp only [remove?, ite_eq_left_iff, reduceCtorEq, imp_false, Bool.not_eq_true,
    Bool.or_eq_false_iff, decide_eq_false_iff_not]
  omega

/-- What is removed lies inside the buffer, and holes that are left at the end go. -/
theorem remove?_eq_some {i : Int} (h : b.remove? i = some c) :
    ∃ n : Nat, i = n ∧ n < b.size ∧
      c = ⟨(b.strings.setIfInBounds n none).popWhile (·.isNone)⟩ := by
  have hrange : ¬(i < 0 ∨ b.size ≤ i) := by
    rw [← remove?_eq_none_iff, h]
    nofun
  obtain ⟨n, rfl⟩ := Int.eq_ofNat_of_zero_le (a := i) (by omega)
  unfold remove? at h
  split at h
  · cases h
  · cases h
    exact ⟨n, rfl, by omega, rfl⟩

/-- A string that is removed leaves a hole, and the others stay. -/
theorem get?_remove? {i : Int} (h : b.remove? i = some c) :
    c.get? = Function.update b.get? i none := by
  obtain ⟨k, rfl, -, rfl⟩ := remove?_eq_some h
  refine get?_eq_of_natCast (fun j hj => ?_) fun n => ?_
  · rw [Function.update_of_ne (by omega), get?_of_neg b hj]
  · rw [get?_natCast, getElem?_popWhile]
    by_cases hn : n = k
    · subst hn
      rw [Function.update_self]
      grind
    · rw [Function.update_of_ne (by omega), get?_natCast]
      grind

/-- Below the limit every index can be set. -/
theorem set?_of_lt {i : Nat} (h : i < Limits.bufferStrings) (b : Buffer) (s : Bytes) :
    ∃ c, b.set? i s = some c := by
  unfold set?
  rw [if_neg (Nat.not_le.mpr h)]
  exact ⟨_, rfl⟩

theorem set?_of_le {i : Nat} (h : Limits.bufferStrings ≤ i) (b : Buffer) (s : Bytes) :
    b.set? i s = none := by
  unfold set?
  rw [if_pos h]

/-! ## No hole at the end -/

/-- The last place of a buffer, if there is one, has a string. -/
def Trimmed (b : Buffer) : Prop := b.size = 0 ∨ ∃ s, b.get? (b.size - 1) = some s

/-- A buffer whose last string is not a hole is trimmed. -/
theorem trimmed_of_back? (h : b.strings.back? ≠ some none) : b.Trimmed := by
  by_cases hsize : b.size = 0
  · exact Or.inl hsize
  · have hlast : ((b.size : Int) - 1) = ((b.size - 1 : Nat) : Int) := by omega
    have hlt : b.size - 1 < b.strings.size := Nat.sub_one_lt hsize
    rw [Array.back?_eq_getElem?] at h
    refine Or.inr (Option.ne_none_iff_exists'.mp ?_)
    rw [hlast, get?_natCast, Array.getElem?_eq_getElem hlt, Option.getD_some]
    intro hnone
    exact h ((Array.getElem?_eq_getElem hlt).trans (congrArg some hnone))

theorem trimmed_ofList (l : List Bytes) : (ofList l).Trimmed := by
  refine trimmed_of_back? ?_
  rw [ofList, List.back?_toArray, List.getLast?_map]
  cases l.getLast? <;> nofun

/-- Setting a string leaves no hole at the end. -/
theorem Trimmed.set? (hb : b.Trimmed) {i : Nat} (h : b.set? i s = some c) : c.Trimmed := by
  refine Or.inr ?_
  rw [size_set? h, get?_set? h]
  rcases Nat.lt_or_ge (i + 1) b.size with hi | hi
  · -- The string goes in front of the last one.
    rw [Nat.max_eq_left (by omega), Function.update_of_ne (by omega)]
    exact hb.resolve_left (by omega)
  · have hlast : ((i + 1 : Nat) : Int) - 1 = i := by omega
    rw [Nat.max_eq_right hi, hlast, Function.update_self]
    exact ⟨s, rfl⟩

theorem Trimmed.addAll (hb : b.Trimmed) (l : List Bytes) : (b.addAll l).1.Trimmed := by
  induction l generalizing b with
  | nil => exact hb
  | cons s rest ih =>
    unfold Buffer.addAll
    cases h : b.set? b.size s with
    | none => exact hb
    | some c => exact ih (hb.set? h)

/-- Removing a string takes the holes at the end away. -/
theorem trimmed_remove? {i : Int} (h : b.remove? i = some c) : c.Trimmed := by
  obtain ⟨k, -, -, rfl⟩ := remove?_eq_some h
  refine trimmed_of_back? ?_
  dsimp only
  generalize b.strings.setIfInBounds k none = xs
  obtain ⟨l⟩ := xs
  rw [popWhile_toArray, List.back?_toArray]
  by_cases hnil : l.rdropWhile (·.isNone) = []
  · rw [hnil]
    nofun
  · have hlast := List.rdropWhile_last_not _ _ hnil
    rw [List.getLast?_eq_some_getLast hnil]
    intro heq
    rw [Option.some.inj heq] at hlast
    exact hlast rfl

/-! ## Where a string is added -/

/-- A string is added where there was none. -/
theorem get?_place (b : Buffer) (atEnd : Bool) : b.get? (b.place atEnd) = none := by
  cases atEnd with
  | true => exact get?_of_size_le b (Int.le_refl _)
  | false =>
    unfold place
    cases h : b.strings.findIdx? (·.isNone) with
    | none => exact get?_of_size_le b (Int.le_refl _)
    | some n =>
      obtain ⟨hn, hhole, -⟩ := Array.findIdx?_eq_some_iff_getElem.mp h
      show b.get? n = none
      rw [get?_natCast, Array.getElem?_eq_getElem hn, Option.getD_some]
      exact Option.isNone_iff_eq_none.mp hhole

/-- There is no hole in front of the first one. -/
theorem get?_of_lt_place (b : Buffer) {i : Int} (h0 : 0 ≤ i) (h : i < b.place false) :
    ∃ s, b.get? i = some s := by
  obtain ⟨n, rfl⟩ := Int.eq_ofNat_of_zero_le h0
  have hstring : ∃ hn : n < b.strings.size, b.strings[n] ≠ none := by
    unfold place at h
    cases hfind : b.strings.findIdx? (·.isNone) with
    | none =>
      rw [hfind] at h
      have hn : n < b.strings.size := Int.ofNat_lt.mp h
      have hsome := Array.findIdx?_eq_none_iff.mp hfind _ (Array.getElem_mem hn)
      exact ⟨hn, fun hnone => by rw [hnone] at hsome; cases hsome⟩
    | some m =>
      rw [hfind] at h
      obtain ⟨hm, -, hfirst⟩ := Array.findIdx?_eq_some_iff_getElem.mp hfind
      have hnm : n < m := Int.ofNat_lt.mp h
      exact ⟨hnm.trans hm, by simpa using hfirst n hnm⟩
  obtain ⟨hn, hsome⟩ := hstring
  rw [get?_natCast, Array.getElem?_eq_getElem hn, Option.getD_some]
  exact Option.ne_none_iff_exists'.mp hsome

end Buffer

/-! ## The buffers of a program -/

namespace OwnedTable

variable {α : Type} {t : OwnedTable α} {owner : Role}

theorem get_put_self {n : Nat} (hn : n < t.size) (v : α) : (t.put n owner v).get owner n = .ok v :=
  get_eq_ok.mpr (slot?_put_self t hn owner v)

/-- An entry that is put leaves the others. -/
theorem get_put_ne {n : Nat} {i : Int} (h : i ≠ n) (v : α) :
    (t.put n owner v).get owner i = t.get owner i := by
  unfold get
  rw [slot?_put_ne t h]

theorem get_erase_self (n : Nat) : (t.erase n).get owner n = .error .invalid := by
  unfold get
  rw [slot?_erase_self]

theorem get_erase_ne {n : Nat} {i : Int} (h : i ≠ n) : (t.erase n).get owner i = t.get owner i := by
  unfold get
  rw [slot?_erase_ne t h]

end OwnedTable

namespace Activation

variable {a : Activation} {handle : Int} {b c : Buffer}

/-- The buffer of a handle, if the role of the machine owns it. -/
def buffer? (a : Activation) (handle : Int) : Option Buffer :=
  (a.world.buffers.get a.machine.role (handle - 1)).toOption

theorem buffer?_eq_some :
    a.buffer? handle = some b ↔ a.world.buffers.get a.machine.role (handle - 1) = .ok b := by
  unfold buffer?
  cases a.world.buffers.get a.machine.role (handle - 1) <;> simp [Except.toOption]

/-- A buffer of the running program is found, for every operation. -/
theorem find_of_buffer? (h : a.buffer? handle = some b) (operation : String) :
    a.world.buffers.find a.machine.role handle operation = .ok b :=
  BufferTable.find_eq_ok.mpr (buffer?_eq_some.mp h)

/-- A handle without a buffer is not one of the role. -/
theorem owner?_ne_of_buffer? (h : a.buffer? handle = none) :
    a.world.owner? (.buffer handle) ≠ some a.machine.role := by
  intro howner
  obtain ⟨⟨owner, b⟩, hslot, hrole⟩ := Option.map_eq_some_iff.mp howner
  have hget : a.world.buffers.get a.machine.role (handle - 1) = .ok b :=
    OwnedTable.get_eq_ok.mpr (hslot.trans (congrArg (fun r => some (Owned.mk r b)) hrole))
  rw [buffer?_eq_some.mpr hget] at h
  cases h

/-- A handle is one more than the number of a slot. -/
theorem exists_slot (h : a.buffer? handle = some b) :
    ∃ n : Nat, handle = n + 1 ∧ n < a.world.buffers.size := by
  obtain ⟨n, hn, hlt⟩ := OwnedTable.exists_index (OwnedTable.get_eq_ok.mp (buffer?_eq_some.mp h))
  exact ⟨n, by omega, hlt⟩

theorem buffer?_put {n : Nat} (hn : n < a.world.buffers.size) (c : Buffer) :
    (a.mapWorld fun w => { w with buffers := w.buffers.put n a.machine.role c }).buffer? =
      Function.update a.buffer? (n + 1) (some c) := by
  funext i
  by_cases hi : i = n + 1
  · subst hi
    rw [Function.update_self, buffer?_eq_some, Int.add_sub_cancel]
    exact OwnedTable.get_put_self hn c
  · rw [Function.update_of_ne hi]
    exact congrArg Except.toOption (OwnedTable.get_put_ne (by omega) c)

/-- Another buffer behind a handle leaves those behind other handles. -/
theorem buffer?_withBuffer (h : a.buffer? handle = some b) (c : Buffer) :
    (a.withBuffer handle c).buffer? = Function.update a.buffer? handle (some c) := by
  obtain ⟨n, rfl, hn⟩ := exists_slot h
  have hslot : ((n : Int) + 1 - 1).toNat = n := by omega
  rw [← buffer?_put hn c, withBuffer]
  unfold BufferTable.replace
  rw [hslot]

theorem buffer?_loading (b : Buffer) : (loading.withBuffer 1 b).buffer? 1 = some b := by
  rw [buffer?_withBuffer (b := {}) rfl, Function.update_self]

/-- A deleted buffer is gone, and only that one. -/
theorem buffer?_delete (h : a.buffer? handle = some b) :
    (a.mapWorld fun w => { w with buffers := w.buffers.delete handle }).buffer? =
      Function.update a.buffer? handle none := by
  obtain ⟨n, rfl, hn⟩ := exists_slot h
  have hslot : ((n : Int) + 1 - 1).toNat = n := by omega
  unfold BufferTable.delete
  rw [hslot]
  funext i
  by_cases hi : i = n + 1
  · subst hi
    rw [Function.update_self, buffer?, Int.add_sub_cancel]
    exact congrArg Except.toOption (OwnedTable.get_erase_self n)
  · rw [Function.update_of_ne hi]
    exact congrArg Except.toOption (OwnedTable.get_erase_ne (by omega))

/-- What a program sees of its buffers: for each handle of its own the strings by their index. -/
def maps (a : Activation) (handle : Int) : Option (Int → Option Bytes) :=
  (a.buffer? handle).map Buffer.get?

/-- Another buffer behind a handle is another map there. -/
theorem maps_withBuffer (h : a.buffer? handle = some b) (c : Buffer) :
    (a.withBuffer handle c).maps = Function.update a.maps handle (some c.get?) := by
  funext i
  unfold maps
  rw [buffer?_withBuffer h, Function.update_apply, Function.update_apply]
  split <;> rfl

/-- A map behind a handle is that of a buffer. -/
theorem exists_of_maps {m : Int → Option Bytes} (h : a.maps handle = some m) :
    ∃ b, a.buffer? handle = some b ∧ b.get? = m :=
  Option.map_eq_some_iff.mp h

end Activation

/-! ## The operations -/

section Operations

open QuakeVm.Action Activation

variable {α : Type} {a : Activation} {handle : Int} {b c : Buffer} {s : Bytes}

/-- What follows when a buffer is found. -/
theorem findBuffer_bind (h : a.buffer? handle = some b) (operation : String)
    (f : Option Buffer → Action α) :
    (Builtins.findBuffer handle operation >>= f) a = f (some b) a := by
  rw [bind_apply, Request.findBuffer_of_ok (find_of_buffer? h _)]

theorem bufferString_apply (h : a.buffer? handle = some b) (i : Int) :
    Builtins.bufferString handle i a = .ok (b.get? i) a :=
  findBuffer_bind h _ _

theorem bufferSize_apply (h : a.buffer? handle = some b) :
    Builtins.bufferSize handle a = .ok (some b.size) a :=
  findBuffer_bind h _ _

theorem setString_of_neg {i : Int} (h : i < 0) (handle : Int) (s : Bytes) (a : Activation) :
    ∃ text, Builtins.setString handle i s a = .ok false (a.mapWorld (·.caution text)) := by
  unfold Builtins.setString
  rw [if_pos h]
  exact ⟨_, rfl⟩

theorem setString_apply (h : a.buffer? handle = some b) (i : Nat) (s : Bytes) :
    Builtins.setString handle i s a = Builtins.storeString handle b i s "bufstr_set" a := by
  unfold Builtins.setString
  rw [if_neg (by omega), findBuffer_bind h, Int.toNat_natCast]

/-- A string that fits is set. -/
theorem setString_of_some {i : Nat} (h : a.buffer? handle = some b) (hset : b.set? i s = some c) :
    Builtins.setString handle i s a = .ok true (a.withBuffer handle c) := by
  rw [setString_apply h, Builtins.storeString, hset]
  rfl

/-- A string that does not fit is refused with a caution. -/
theorem setString_of_none {i : Nat} (h : a.buffer? handle = some b) (hset : b.set? i s = none) :
    ∃ text, Builtins.setString handle i s a = .ok false (a.mapWorld (·.caution text)) := by
  rw [setString_apply h, Builtins.storeString, hset]
  exact ⟨_, rfl⟩

theorem addString_of_some {atEnd : Bool} (h : a.buffer? handle = some b)
    (hset : b.set? (b.place atEnd) s = some c) :
    Builtins.addString handle s atEnd a = .ok (some (b.place atEnd)) (a.withBuffer handle c) := by
  unfold Builtins.addString Builtins.storeString
  rw [findBuffer_bind h]
  dsimp only
  rw [hset]
  rfl

/-- A full buffer refuses a string with a caution. -/
theorem addString_of_none {atEnd : Bool} (h : a.buffer? handle = some b)
    (hset : b.set? (b.place atEnd) s = none) :
    ∃ text, Builtins.addString handle s atEnd a = .ok none (a.mapWorld (·.caution text)) := by
  unfold Builtins.addString Builtins.storeString
  rw [findBuffer_bind h]
  dsimp only
  rw [hset]
  exact ⟨_, rfl⟩

theorem freeString_of_some {i : Int} (h : a.buffer? handle = some b)
    (hremove : b.remove? i = some c) :
    Builtins.freeString handle i a = .ok true (a.withBuffer handle c) := by
  unfold Builtins.freeString
  rw [findBuffer_bind h]
  dsimp only
  rw [hremove]
  rfl

/-- Where there is nothing to remove, nothing changes. -/
theorem freeString_of_none {i : Int} (h : a.buffer? handle = some b)
    (hremove : b.remove? i = none) : Builtins.freeString handle i a = .ok false a := by
  unfold Builtins.freeString
  rw [findBuffer_bind h]
  dsimp only
  rw [hremove]
  rfl

/-- A change of a whole buffer always succeeds. -/
theorem changeBuffer_apply (h : a.buffer? handle = some b) (operation : String)
    (f : Buffer → Buffer) :
    Builtins.changeBuffer handle operation f a = .ok true (a.withBuffer handle (f b)) :=
  findBuffer_bind h _ _

theorem copyBuffer_self (h : a.buffer? handle = some b) :
    Builtins.copyBuffer handle handle a = .ok true a := by
  unfold Builtins.copyBuffer
  rw [findBuffer_bind h]
  dsimp only
  rw [beq_self_eq_true]
  rfl

theorem copyBuffer_apply {source target : Int} (hne : source ≠ target)
    (h : a.buffer? source = some b) (htarget : a.buffer? target = some c) :
    Builtins.copyBuffer source target a = .ok true (a.withBuffer target b) := by
  unfold Builtins.copyBuffer
  rw [findBuffer_bind h]
  dsimp only
  rw [beq_false_of_ne hne]
  exact changeBuffer_apply htarget _ _

/-- Lines are added one after the other; what is recorded besides does not matter here. -/
theorem addLines_cases (h : a.buffer? handle = some b) (text : Bytes) :
    ∃ full log, Builtins.addLines handle text a = .ok full
      ((a.withBuffer handle (b.addAll (Buffer.lines text)).1).mapWorld fun w => { w with log }) := by
  unfold Builtins.addLines
  rw [findBuffer_bind h]
  dsimp only
  cases (b.addAll (Buffer.lines text)).2 <;> exact ⟨_, _, rfl⟩

end Operations

/-! ## Runs of operations -/

/-- An operation that changes the buffers of a program. -/
inductive BufferEdit where
  | create
  | delete (handle : Int)
  | set (handle index : Int) (s : Bytes)
  | add (handle : Int) (s : Bytes) (atEnd : Bool)
  | free (handle index : Int)
  | sort (handle length : Int) (backward : Bool)
  | copy (source target : Int)
  | addLines (handle : Int) (text : Bytes)
  | replace (handle : Int) (strings : List Bytes) (operation : String)

open QuakeVm.Action in
/-- The state after an operation, whatever it answers. -/
def BufferEdit.after (a : Activation) : BufferEdit → Activation
  | create => final Builtins.createBuffer a
  | delete handle => final (Builtins.deleteBuffer handle) a
  | set handle index s => final (Builtins.setString handle index s) a
  | add handle s atEnd => final (Builtins.addString handle s atEnd) a
  | free handle index => final (Builtins.freeString handle index) a
  | sort handle length backward => final (Builtins.sortBuffer handle length backward) a
  | copy source target => final (Builtins.copyBuffer source target) a
  | addLines handle text => final (Builtins.addLines handle text) a
  | replace handle strings operation => final (Builtins.replaceBuffer handle strings operation) a

namespace Activation

variable {α : Type} {a a' : Activation} {handle : Int} {b c : Buffer}

/-- The state after operations, one after the other. -/
def edited (a : Activation) (edits : List BufferEdit) : Activation :=
  edits.foldl BufferEdit.after a

/-- None of the buffers of the program ends in a hole. -/
def Trimmed (a : Activation) : Prop := ∀ handle b, a.buffer? handle = some b → b.Trimmed

/-- A program without buffers has no hole at the end of one. -/
theorem trimmed_of_hasNone (h : a.world.buffers.HasNone a.machine.role) : a.Trimmed := by
  intro handle b hb
  exact absurd rfl (h _ _ (OwnedTable.get_eq_ok.mp (buffer?_eq_some.mp hb)))

theorem Trimmed.of_eq (ha : a.Trimmed) (h : a'.buffer? = a.buffer?) : a'.Trimmed := by
  intro handle b hb
  exact ha handle b (h ▸ hb)

/-- One buffer may change. -/
theorem Trimmed.update (ha : a.Trimmed) {b? : Option Buffer}
    (h : a'.buffer? = Function.update a.buffer? handle b?) (hb : ∀ b ∈ b?, b.Trimmed) :
    a'.Trimmed := by
  intro i c hc
  rw [h] at hc
  by_cases hi : i = handle
  · subst hi
    rw [Function.update_self] at hc
    exact hb c hc
  · rw [Function.update_of_ne hi] at hc
    exact ha i c hc

/-- Another trimmed buffer behind a handle. -/
theorem Trimmed.withBuffer (ha : a.Trimmed) (h : a.buffer? handle = some b) (hc : c.Trimmed) :
    (a.withBuffer handle c).Trimmed := by
  refine ha.update (buffer?_withBuffer h c) fun b hb => ?_
  cases hb
  exact hc

theorem final_of_ok {x : Action α} {v : α} (h : x a = .ok v a') : x.final a = a' := by
  rw [Action.final, h]

/-- A request that is refused leaves the buffers alone, so it is enough to look at a buffer that is
found. -/
theorem Trimmed.request (ha : a.Trimmed) (r : Request α) (hs : .buffer handle ∈ r.subjects)
    (hfound : ∀ b, a.buffer? handle = some b → (r.run.final a).Trimmed) :
    (r.run.final a).Trimmed := by
  cases hb : a.buffer? handle with
  | some b => exact hfound b hb
  | none =>
    obtain ⟨text, hrun⟩ := r.run_of_refused hs (owner?_ne_of_buffer? hb)
    rw [final_of_ok hrun]
    exact ha.of_eq rfl

theorem trimmed_createBuffer (ha : a.Trimmed) : (Builtins.createBuffer.final a).Trimmed := by
  unfold Builtins.createBuffer
  rw [Action.final_bind, Action.world_apply]
  dsimp only
  rw [Action.final_bind, Action.role_apply]
  dsimp only
  cases hcreate : a.world.buffers.create? a.machine.role with
  | none => exact ha.of_eq rfl
  | some r =>
    obtain ⟨n, buffers⟩ := r
    obtain ⟨i, -, hfree, rfl⟩ := BufferTable.create?_eq_some hcreate
    refine ha.update (buffer?_put (OwnedTable.free?_eq_some hfree).1 {}) fun b hb => ?_
    cases hb
    exact Or.inl rfl

theorem trimmed_setString (ha : a.Trimmed) (handle index : Int) (s : Bytes) :
    ((Builtins.setString handle index s).final a).Trimmed := by
  by_cases hneg : index < 0
  · obtain ⟨text, hrun⟩ := setString_of_neg hneg handle s a
    rw [final_of_ok hrun]
    exact ha.of_eq rfl
  · obtain ⟨n, rfl⟩ := Int.eq_ofNat_of_zero_le (Int.not_lt.mp hneg)
    refine ha.request (.setString handle n s) (List.mem_singleton.mpr rfl) fun b hb => ?_
    cases hset : b.set? n s with
    | some c =>
      rw [Request.run, final_of_ok (setString_of_some hb hset)]
      exact ha.withBuffer hb ((ha handle b hb).set? hset)
    | none =>
      obtain ⟨text, hrun⟩ := setString_of_none hb hset
      rw [Request.run, final_of_ok hrun]
      exact ha.of_eq rfl

theorem trimmed_addString (ha : a.Trimmed) (handle : Int) (s : Bytes) (atEnd : Bool) :
    ((Builtins.addString handle s atEnd).final a).Trimmed := by
  refine ha.request (.addString handle s atEnd) (List.mem_singleton.mpr rfl) fun b hb => ?_
  cases hset : b.set? (b.place atEnd) s with
  | some c =>
    rw [Request.run, final_of_ok (addString_of_some hb hset)]
    exact ha.withBuffer hb ((ha handle b hb).set? hset)
  | none =>
    obtain ⟨text, hrun⟩ := addString_of_none hb hset
    rw [Request.run, final_of_ok hrun]
    exact ha.of_eq rfl

theorem trimmed_freeString (ha : a.Trimmed) (handle index : Int) :
    ((Builtins.freeString handle index).final a).Trimmed := by
  refine ha.request (.freeString handle index) (List.mem_singleton.mpr rfl) fun b hb => ?_
  cases hremove : b.remove? index with
  | some c =>
    rw [Request.run, final_of_ok (freeString_of_some hb hremove)]
    exact ha.withBuffer hb (Buffer.trimmed_remove? hremove)
  | none =>
    rw [Request.run, final_of_ok (freeString_of_none hb hremove)]
    exact ha

theorem trimmed_copyBuffer (ha : a.Trimmed) (source target : Int) :
    ((Builtins.copyBuffer source target).final a).Trimmed := by
  refine ha.request (.copyBuffer source target) List.mem_cons_self fun b hb => ?_
  refine ha.request _ (List.mem_cons_of_mem _ (List.mem_singleton.mpr rfl)) fun c hc => ?_
  by_cases hsame : source = target
  · subst hsame
    rw [Request.run, final_of_ok (copyBuffer_self hb)]
    exact ha
  · rw [Request.run, final_of_ok (copyBuffer_apply hsame hb hc)]
    exact ha.withBuffer hc (ha source b hb)

/-- **One operation leaves no hole at the end of a buffer.** -/
theorem trimmed_after (ha : a.Trimmed) (e : BufferEdit) : (e.after a).Trimmed := by
  cases e with
  | create => exact trimmed_createBuffer ha
  | set handle index s => exact trimmed_setString ha handle index s
  | add handle s atEnd => exact trimmed_addString ha handle s atEnd
  | free handle index => exact trimmed_freeString ha handle index
  | copy source target => exact trimmed_copyBuffer ha source target
  | delete handle =>
    refine ha.request (.deleteBuffer handle) (List.mem_singleton.mpr rfl) fun b hb => ?_
    have hrun : Builtins.deleteBuffer handle a = .ok true
        (a.mapWorld fun w => { w with buffers := w.buffers.delete handle }) :=
      findBuffer_bind hb _ _
    rw [Request.run, final_of_ok hrun]
    exact ha.update (buffer?_delete hb) nofun
  | sort handle length backward =>
    refine ha.request (.sortBuffer handle length backward) (List.mem_singleton.mpr rfl)
      fun b hb => ?_
    rw [Request.run, Builtins.sortBuffer, final_of_ok (changeBuffer_apply hb _ _)]
    exact ha.withBuffer hb (Buffer.trimmed_ofList _)
  | addLines handle text =>
    refine ha.request (.addLines handle text) (List.mem_singleton.mpr rfl) fun b hb => ?_
    obtain ⟨full, log, hrun⟩ := addLines_cases hb text
    rw [Request.run, final_of_ok hrun]
    exact (ha.withBuffer hb ((ha handle b hb).addAll _)).of_eq rfl
  | replace handle strings operation =>
    refine ha.request (.replaceBuffer handle strings operation) (List.mem_singleton.mpr rfl)
      fun b hb => ?_
    rw [Request.run, Builtins.replaceBuffer, final_of_ok (changeBuffer_apply hb _ _)]
    exact ha.withBuffer hb (Buffer.trimmed_ofList _)

theorem trimmed_edited (ha : a.Trimmed) (edits : List BufferEdit) : (a.edited edits).Trimmed := by
  induction edits generalizing a with
  | nil => exact ha
  | cons e rest ih => exact ih (trimmed_after ha e)

end Activation

/-! ## Buffers as maps -/

/-- The size of a map: no index at or above it has a string, and the one below it has. -/
def IsSize (m : Int → Option Bytes) (n : Nat) : Prop :=
  (∀ i s, m i = some s → 0 ≤ i ∧ i < n) ∧ (n = 0 ∨ ∃ s, m (n - 1) = some s)

/-- The size of a trimmed buffer is that of its map. -/
theorem Buffer.Trimmed.isSize {b : Buffer} (h : b.Trimmed) : IsSize b.get? b.size :=
  ⟨fun _ _ => index_of_get?, h⟩

/-- The first index of a map without a string. -/
def IsFirstHole (m : Int → Option Bytes) (n : Nat) : Prop :=
  m n = none ∧ ∀ i : Int, 0 ≤ i → i < n → ∃ s, m i = some s

open Builtins in
/-- To look up, set, add, free and copy are for the buffers of a program what they are for maps from
indices to strings. -/
structure Activation.RefinesMaps (a : Activation) : Prop where
  get : ∀ handle m, a.maps handle = some m → ∀ i : Int, bufferString handle i a = .ok (m i) a
  size : ∀ handle m, a.maps handle = some m →
    ∃ n, bufferSize handle a = .ok (some n) a ∧ IsSize m n
  set : ∀ handle m, a.maps handle = some m → ∀ (i : Int) (s : Bytes), 0 ≤ i →
    i < Limits.bufferStrings → ∃ b, setString handle i s a = .ok true b ∧
      b.maps = Function.update a.maps handle (some (Function.update m i (some s)))
  set_refused : ∀ (handle i : Int) (s : Bytes), i < 0 ∨ Limits.bufferStrings ≤ i → ∃ text,
    setString handle i s a = .ok false (a.mapWorld (·.caution text))
  /-- The index is the size, or the first without a string, and it has to be below the limit. -/
  add : ∀ handle m, a.maps handle = some m → ∀ s atEnd, ∃ i,
    (if atEnd then bufferSize handle a = .ok (some i) a else IsFirstHole m i) ∧
    if i < Limits.bufferStrings then
      ∃ b, addString handle s atEnd a = .ok (some i) b ∧
        b.maps = Function.update a.maps handle (some (Function.update m i (some s)))
    else ∃ text, addString handle s atEnd a = .ok none (a.mapWorld (·.caution text))
  free : ∀ handle m, a.maps handle = some m → ∀ i : Int, ∃ ok b, freeString handle i a = .ok ok b ∧
    b.maps = Function.update a.maps handle (some (Function.update m i none)) ∧
    (ok = true ↔ 0 ≤ i ∧ ∃ n : Nat, bufferSize handle a = .ok (some n) a ∧ i < n)
  copy : ∀ source target m, a.maps source = some m → a.maps target ≠ none →
    ∃ b, copyBuffer source target a = .ok true b ∧ b.maps = Function.update a.maps target (some m)
  /-- Nothing can be done with a handle of nobody or of another program. -/
  unowned : ∀ handle, a.maps handle = none → ∀ {α : Type} (r : Request α),
    .buffer handle ∈ r.subjects → ∃ text, r.run a = .ok r.refusal (a.mapWorld (·.caution text))

namespace Activation

variable {a : Activation} {handle : Int} {b c : Buffer} {s : Bytes} {m : Int → Option Bytes}

theorem maps_set? {i : Nat} (h : a.buffer? handle = some b) (hset : b.set? i s = some c) :
    (a.withBuffer handle c).maps =
      Function.update a.maps handle (some (Function.update b.get? i (some s))) := by
  rw [maps_withBuffer h, Buffer.get?_set? hset]

/-- Setting a string updates the map at one index. -/
theorem setString_refines (h : a.maps handle = some m) {i : Int} (hi : 0 ≤ i)
    (hlimit : i < Limits.bufferStrings) (s : Bytes) :
    ∃ b, Builtins.setString handle i s a = .ok true b ∧
      b.maps = Function.update a.maps handle (some (Function.update m i (some s))) := by
  obtain ⟨b, hb, rfl⟩ := exists_of_maps h
  obtain ⟨n, rfl⟩ := Int.eq_ofNat_of_zero_le hi
  obtain ⟨c, hset⟩ := Buffer.set?_of_lt (Int.ofNat_lt.mp hlimit) b s
  exact ⟨_, setString_of_some hb hset, maps_set? hb hset⟩

/-- Outside of the range nothing is set. -/
theorem setString_outOfRange {i : Int} (hi : i < 0 ∨ Limits.bufferStrings ≤ i) (handle : Int)
    (s : Bytes) (a : Activation) :
    ∃ text, Builtins.setString handle i s a = .ok false (a.mapWorld (·.caution text)) := by
  rcases hi with hneg | hlimit
  · exact setString_of_neg hneg handle s a
  · obtain ⟨n, rfl⟩ := Int.eq_ofNat_of_zero_le (Int.le_trans (Int.natCast_nonneg _) hlimit)
    cases hb : a.buffer? handle with
    | some b => exact setString_of_none hb (Buffer.set?_of_le (Int.ofNat_le.mp hlimit) b s)
    | none =>
      exact Request.run_of_refused (.setString handle n s) (List.mem_singleton.mpr rfl)
        (owner?_ne_of_buffer? hb)

/-- Adding a string updates the map at the end or at the first hole, as far as there is room. -/
theorem addString_refines (h : a.maps handle = some m) (s : Bytes) (atEnd : Bool) : ∃ i,
    (if atEnd then Builtins.bufferSize handle a = .ok (some i) a else IsFirstHole m i) ∧
    if i < Limits.bufferStrings then
      ∃ b, Builtins.addString handle s atEnd a = .ok (some i) b ∧
        b.maps = Function.update a.maps handle (some (Function.update m i (some s)))
    else ∃ text, Builtins.addString handle s atEnd a = .ok none (a.mapWorld (·.caution text)) := by
  obtain ⟨b, hb, rfl⟩ := exists_of_maps h
  refine ⟨b.place atEnd, ?_, ?_⟩
  · cases atEnd with
    | true => exact bufferSize_apply hb
    | false => exact ⟨b.get?_place false, fun i hi hlt => b.get?_of_lt_place hi hlt⟩
  · split
    · rename_i hlimit
      obtain ⟨c, hset⟩ := Buffer.set?_of_lt hlimit b s
      exact ⟨_, addString_of_some hb hset, maps_set? hb hset⟩
    · rename_i hlimit
      exact addString_of_none hb (Buffer.set?_of_le (Nat.not_lt.mp hlimit) b s)

/-- Removing a string updates the map at one index; the answer says whether the index was inside. -/
theorem freeString_refines (h : a.maps handle = some m) (i : Int) :
    ∃ ok b, Builtins.freeString handle i a = .ok ok b ∧
      b.maps = Function.update a.maps handle (some (Function.update m i none)) ∧
      (ok = true ↔ 0 ≤ i ∧ ∃ n : Nat, Builtins.bufferSize handle a = .ok (some n) a ∧ i < n) := by
  obtain ⟨b, hb, rfl⟩ := exists_of_maps h
  have hplaces : (∃ n : Nat, Builtins.bufferSize handle a = .ok (some n) a ∧ i < n) ↔ i < b.size := by
    rw [bufferSize_apply hb]
    constructor
    · rintro ⟨n, hn, hlt⟩
      cases hn
      exact hlt
    · exact fun hlt => ⟨b.size, rfl, hlt⟩
  rw [hplaces]
  cases hremove : b.remove? i with
  | some c =>
    refine ⟨true, _, freeString_of_some hb hremove, ?_, ?_⟩
    · rw [maps_withBuffer hb, Buffer.get?_remove? hremove]
    · have hrange := mt Buffer.remove?_eq_none_iff.mpr (by rw [hremove]; nofun)
      simp only [true_iff]
      omega
  | none =>
    -- There was no string, so that nothing has to be removed.
    have hrange := Buffer.remove?_eq_none_iff.mp hremove
    have hnone : b.get? i = none := by
      rcases hrange with hneg | hsize
      · exact b.get?_of_neg hneg
      · exact b.get?_of_size_le hsize
    refine ⟨false, a, freeString_of_none hb hremove, ?_, ?_⟩
    · have hsame : Function.update b.get? i none = b.get? :=
        Function.update_eq_self_iff.mpr hnone.symm
      rw [hsame, Function.update_eq_self_iff.mpr h.symm]
    · simp only [Bool.false_eq_true, false_iff]
      omega

/-- Copying a buffer replaces one map by another. -/
theorem copyBuffer_refines {source target : Int} (h : a.maps source = some m)
    (htarget : a.maps target ≠ none) :
    ∃ b, Builtins.copyBuffer source target a = .ok true b ∧
      b.maps = Function.update a.maps target (some m) := by
  obtain ⟨b, hb, rfl⟩ := exists_of_maps h
  obtain ⟨m', hm'⟩ := Option.ne_none_iff_exists'.mp htarget
  obtain ⟨c, hc, -⟩ := exists_of_maps hm'
  by_cases hsame : source = target
  · subst hsame
    exact ⟨a, copyBuffer_self hb, (Function.update_eq_self_iff.mpr h.symm).symm⟩
  · exact ⟨_, copyBuffer_apply hsame hb hc, maps_withBuffer hc b⟩

end Activation

open Activation in
/-- **String buffers are finite maps.** A program that owns no buffer makes some and changes them by any
sequence of operations. Whatever it has done, its buffers are maps from indices to strings. Their size
is zero or one more than the last index with a string. A string that is set or added is found at its
index, and all others stay; one that is added goes to the end, or to the first index without a string.
Removing a string removes no other, and a copy has the strings of its source, which stays. An index that
is negative or at the limit is refused, with no more than a caution. -/
theorem buffers_refine_maps {a : Activation} (h : a.world.buffers.HasNone a.machine.role)
    (edits : List BufferEdit) : (a.edited edits).RefinesMaps where
  get handle m hm i := by
    obtain ⟨b, hb, rfl⟩ := exists_of_maps hm
    exact bufferString_apply hb i
  size handle m hm := by
    obtain ⟨b, hb, rfl⟩ := exists_of_maps hm
    have htrimmed : (a.edited edits).Trimmed := trimmed_edited (trimmed_of_hasNone h) edits
    exact ⟨b.size, bufferSize_apply hb, (htrimmed handle b hb).isSize⟩
  set handle m hm i s hi hlimit := setString_refines hm hi hlimit s
  set_refused handle i s hi := setString_outOfRange hi handle s _
  add handle m hm s atEnd := addString_refines hm s atEnd
  free handle m hm i := freeString_refines hm i
  copy source target m hm htarget := copyBuffer_refines hm htarget
  unowned handle hm _ r hs :=
    r.run_of_refused hs (owner?_ne_of_buffer? (Option.map_eq_none_iff.mp hm))

/-- A server without a string buffer. -/
def unbuffered : Activation := ⟨loading.machine, .new "game" .empty⟩

/-- A string far behind the end, one in the first hole, and the first of them removed again. -/
def growing : List BufferEdit :=
  [.create, .set 1 3 [0x78], .add 1 [0x79] false, .free 1 3]

/-- The holes that were left between the two strings are gone with the last one. -/
theorem buffers_refine_maps_growing :
    unbuffered.world.buffers.HasNone unbuffered.machine.role ∧
      Builtins.bufferSize 1 (unbuffered.edited growing) =
        .ok (some 1) (unbuffered.edited growing) ∧
      ∃ text, Builtins.setString 1 Limits.bufferStrings [] (unbuffered.edited growing) =
        .ok false ((unbuffered.edited growing).mapWorld (·.caution text)) := by
  have hnone : unbuffered.world.buffers.HasNone unbuffered.machine.role :=
    OwnedTable.hasNone_empty _ _
  have hbuffer : (unbuffered.edited growing).buffer? 1 = some ⟨#[some [0x79]]⟩ := by
    decide +kernel
  have hmaps := congrArg (Option.map Buffer.get?) hbuffer
  have hrefines := buffers_refine_maps hnone growing
  obtain ⟨n, hsize, hbound, hlast⟩ := hrefines.size 1 _ hmaps
  have hpos : (0 : Int) < n := (hbound 0 [0x79] rfl).2
  have hone : n = 1 := by
    obtain ⟨s, hs⟩ := hlast.resolve_left (by omega)
    have hlt : (n : Int) - 1 < 1 := (Buffer.index_of_get? hs).2
    omega
  subst hone
  exact ⟨hnone, hsize, hrefines.set_refused 1 _ [] (Or.inr (Int.le_refl _))⟩

end QuakeVm
