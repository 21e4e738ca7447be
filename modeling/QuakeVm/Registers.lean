import QuakeVm.Vector

/-!
# Registers

The globals of a running program: a flat array of 32-bit words. Singles, integers, string handles,
entity numbers and function numbers share the words, and a vector takes three in a row. Reading
outside of the array gives zero, and writing there does nothing.

The first registers are reserved: one to three hold the value a function returned, and eight
parameters of three words each follow.
-/

namespace QuakeVm

/-- The register of returned values. -/
def returnRegister : Nat := 1

/-- Parameters that a call can pass. -/
def maxParameters : Nat := 8

/-- The first register of a parameter. -/
def parameter (n : Nat) : Nat := 4 + 3 * n

/-- Registers below this are reserved. -/
def reservedRegisters : Nat := 28

/-- The global that holds the current entity. -/
def selfRegister : Nat := 28

/-- The global that holds the game time. -/
def timeRegister : Nat := 31

/-- The globals of a running program. -/
structure Registers where
  words : Array Int32
  deriving Repr, DecidableEq

namespace Registers

/-- The initial globals of a program, with room for the reserved registers. -/
def ofGlobals (globals : Array Int32) : Registers :=
  ⟨globals ++ Array.replicate (reservedRegisters - globals.size) 0⟩

/-- The number of globals. -/
def size (r : Registers) : Nat := r.words.size

/-- The word of a register. -/
@[inline]
def get (r : Registers) (i : Nat) : Int32 := r.words.getD i 0

/-- The registers with one word changed. -/
@[inline]
def set (r : Registers) (i : Nat) (w : Int32) : Registers := ⟨r.words.setIfInBounds i w⟩

/-- The single of a register. -/
@[inline]
def float (r : Registers) (i : Nat) : Float32 := Float32.ofBits (r.get i).toUInt32

/-- The registers with one single changed. -/
@[inline]
def setFloat (r : Registers) (i : Nat) (v : Float32) : Registers := r.set i v.toBits.toInt32

/-- The vector that begins at a register. -/
def vector (r : Registers) (i : Nat) : Vec3 := ⟨r.float i, r.float (i + 1), r.float (i + 2)⟩

/-- The registers with one vector changed. -/
def setVector (r : Registers) (i : Nat) (v : Vec3) : Registers :=
  ((r.setFloat i v.x).setFloat (i + 1) v.y).setFloat (i + 2) v.z

/-- `n` words from `source` on, copied to `target` one after the other. -/
def copy (r : Registers) (target source : Nat) : Nat → Registers
  | 0 => r
  | n + 1 => (r.set target (r.get source)).copy (target + 1) (source + 1) n

/-- `n` words from a register on. -/
def window (r : Registers) (start : Nat) : Nat → List Int32
  | 0 => []
  | n + 1 => r.get start :: r.window (start + 1) n

/-- The words of a list written from a register on. -/
def setWindow (r : Registers) (start : Nat) : List Int32 → Registers
  | [] => r
  | w :: rest => (r.set start w).setWindow (start + 1) rest

/-- Up to `n` words from a register on, as far as there are any. -/
def slice (r : Registers) (start n : Nat) : List Int32 :=
  (r.words.extract start (start + n)).toList

end Registers

end QuakeVm
