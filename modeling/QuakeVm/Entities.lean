import QuakeVm.Fault

/-!
# Entities

An entity is a block of words, one block after the other in one array. Entity zero is the world and is
never free. A pointer to a field is an index into the array.

Entities are allocated in the first free block behind the world. Only then does the array grow.
-/

namespace QuakeVm

/-- The entities of a program. -/
structure Entities where
  fields : Nat
  words : Array Int32
  free : Array Bool
  max : Nat
  deriving Repr, DecidableEq

namespace Entities

/-- The entities of a program that has just been loaded: the world alone. -/
def new (fields max : Nat) : Entities where
  fields
  words := .replicate fields 0
  free := #[false]
  max := Nat.max max 1

/-- The number of blocks, free or not. -/
def size (e : Entities) : Nat := e.free.size

/-- The number of entities. -/
def liveCount (e : Entities) : Nat := e.free.count false

/-- Whether a number names no entity. -/
def isFree (e : Entities) (number : Int) : Bool :=
  if number < 0 then true else e.free.getD number.toNat true

/-! ## Allocation -/

/-- `n` words from `start` on set to zero. -/
def zeroFrom (words : Array Int32) (start : Nat) : Nat → Array Int32
  | 0 => words
  | n + 1 => zeroFrom (words.setIfInBounds start 0) (start + 1) n

/-- The entities with the fields of one set to zero. -/
def clear (e : Entities) (n : Nat) : Entities :=
  { e with words := zeroFrom e.words (n * e.fields) e.fields }

/-- The entities with a block marked as taken and cleared. -/
def occupy (e : Entities) (n : Nat) : Entities :=
  { e with free := e.free.setIfInBounds n false }.clear n

/-- The first free block behind the world, counted from `n`. -/
def firstFree? (n : Nat) : List Bool → Option Nat
  | [] => none
  | b :: rest => if b then some n else firstFree? (n + 1) rest

/-- The entities with one more free block. -/
def grow (e : Entities) : Entities :=
  { e with free := e.free.push true, words := e.words ++ Array.replicate e.fields 0 }

/-- A new entity, with all fields zero. -/
def allocate (e : Entities) : Except Cause (Nat × Entities) :=
  match firstFree? 1 (e.free.toList.drop 1) with
  | some n => .ok (n, e.occupy n)
  | none =>
    if e.max ≤ e.free.size then .error (.noFreeEntity e.max)
    else .ok (e.free.size, e.grow.occupy e.free.size)

/-- The entities without one; the world and free blocks stay as they are. -/
def remove? (e : Entities) (number : Int) : Option Entities :=
  if number ≤ 0 || e.isFree number then none
  else some ({ e with free := e.free.setIfInBounds number.toNat true }.clear number.toNat)

/-- The first live block at `n` or behind it. -/
def liveFrom (n : Nat) : List Bool → Nat
  | [] => 0
  | b :: rest => if b then liveFrom (n + 1) rest else n

/-- The next entity after a number; zero when there is none. -/
def next (e : Entities) (number : Int) : Nat :=
  let start := if number < 0 then 1 else number.toNat + 1
  liveFrom start (e.free.toList.drop start)

/-! ## Fields -/

/-- The pointer to a field. Free blocks have pointers too. -/
def pointer (e : Entities) (number field : Int) : Except Cause Nat :=
  if number < 0 || field < 0 || e.free.size ≤ number.toNat || e.fields ≤ field.toNat then
    .error (.badEntity number)
  else .ok (number.toNat * e.fields + field.toNat)

/-- The fault of a pointer that points outside of the array. -/
def outside (e : Entities) (pointer : Nat) : Cause :=
  .badEntity (Int32.ofNat (pointer / Nat.max e.fields 1)).toInt

/-- The word at a pointer. -/
def read (e : Entities) (pointer : Nat) : Except Cause Int32 :=
  match e.words[pointer]? with
  | some w => .ok w
  | none => .error (e.outside pointer)

/-- The entities with the word at a pointer changed. -/
def write (e : Entities) (pointer : Nat) (w : Int32) : Except Cause Entities :=
  if pointer < e.words.size then .ok { e with words := e.words.setIfInBounds pointer w }
  else .error (e.outside pointer)

/-- The word of a field. -/
def get (e : Entities) (number field : Int) : Except Cause Int32 := do
  e.read (← e.pointer number field)

/-- The entities with a field changed. -/
def set (e : Entities) (number field : Int) (w : Int32) : Except Cause Entities := do
  e.write (← e.pointer number field) w

end Entities

end QuakeVm
