import QuakeVm.Opcode
import QuakeVm.Program.Basic
import QuakeVm.Registers

/-!
# Instructions

A statement taken apart. Most opcodes compute with registers alone and differ only in what they
compute, so they are one kind of instruction; what is left are the few kinds that touch strings,
entities or the flow of control.
-/

namespace QuakeVm

/-- What a statement does. -/
inductive Instruction where
  /-- Change the registers. -/
  | compute (f : Registers → Registers)
  /-- Compare two strings. -/
  | compareText (a b c : Nat) (equal : Bool)
  /-- Test whether a string is empty. -/
  | emptyText (a c : Nat)
  /-- Read words of an entity's field. -/
  | load (entity field target : Nat)
  /-- Read the three words of a vector field. -/
  | loadVector (entity field target : Nat)
  /-- Make a pointer to an entity's field. -/
  | address (entity field target : Nat)
  /-- Write a word through a pointer. -/
  | store (source pointer : Nat)
  /-- Write three words through a pointer. -/
  | storeVector (source pointer : Nat)
  /-- Go on at a distance, if a condition on the registers holds. -/
  | jump (condition : Registers → Bool) (distance : Int)
  /-- Call the function of a register with a number of arguments. -/
  | call (function arguments : Nat)
  /-- Leave the function, with three words as its value if a register is given. -/
  | leave (value : Option Nat)
  /-- Set the fields that drive an entity's animation. -/
  | state (frame think : Nat)

namespace Instruction

/-- Combine two singles. -/
def arithmetic (a b c : Nat) (f : Float32 → Float32 → Float32) : Instruction :=
  .compute fun r => r.setFloat c (f (r.float a) (r.float b))

/-- Combine two vectors. -/
def vectors (a b c : Nat) (f : Vec3 → Vec3 → Vec3) : Instruction :=
  .compute fun r => r.setVector c (f (r.vector a) (r.vector b))

/-- Store a truth value as one or zero. -/
def setTruth (r : Registers) (c : Nat) (b : Bool) : Registers := r.setFloat c (if b then 1 else 0)

/-- Test the registers. -/
def test (c : Nat) (p : Registers → Bool) : Instruction := .compute fun r => setTruth r c (p r)

/-- Copy words. -/
def move (source target size : Nat) : Instruction := .compute fun r => r.copy target source size

/-- Combine the integer parts of two singles bit by bit. -/
def bits (f : Int32 → Int32 → Int32) (x y : Float32) : Float32 :=
  Number.single (f (Int32.ofInt (Number.toInt32 x)) (Int32.ofInt (Number.toInt32 y))).toInt

/-- An operand as a signed distance. -/
def distance (w : UInt16) : Int := w.toInt16.toInt

/-- What a statement with a given opcode does. -/
def ofStatement (op : Opcode) (s : Statement) : Instruction :=
  let a := s.a.toNat
  let b := s.b.toNat
  let c := s.c.toNat
  match op with
  | .done => .leave none
  | .return_ => .leave (some a)
  | .mulF => arithmetic a b c (· * ·)
  | .divF => arithmetic a b c (· / ·)
  | .addF => arithmetic a b c (· + ·)
  | .subF => arithmetic a b c (· - ·)
  | .mulV => .compute fun r => r.setFloat c ((r.vector a).dot (r.vector b))
  | .mulFV => .compute fun r => r.setVector c ((r.vector b).scale (r.float a))
  | .mulVF => .compute fun r => r.setVector c ((r.vector a).scale (r.float b))
  | .addV => vectors a b c .add
  | .subV => vectors a b c .sub
  | .bitAnd => arithmetic a b c (bits (· &&& ·))
  | .bitOr => arithmetic a b c (bits (· ||| ·))
  | .eqF => test c fun r => r.float a == r.float b
  | .neF => test c fun r => r.float a != r.float b
  | .eqV => test c fun r => (r.vector a).sameAs (r.vector b)
  | .neV => test c fun r => !(r.vector a).sameAs (r.vector b)
  | .eqE | .eqFnc => test c fun r => r.get a == r.get b
  | .neE | .neFnc => test c fun r => r.get a != r.get b
  | .eqS => .compareText a b c true
  | .neS => .compareText a b c false
  | .le => test c fun r => r.float a ≤ r.float b
  | .ge => test c fun r => r.float b ≤ r.float a
  | .lt => test c fun r => r.float a < r.float b
  | .gt => test c fun r => r.float b < r.float a
  | .and_ => test c fun r => r.float a != 0 && r.float b != 0
  | .or_ => test c fun r => r.float a != 0 || r.float b != 0
  | .notF => test c fun r => r.float a == 0
  | .notV => test c fun r => (r.vector a).sameAs .zero
  | .notS => .emptyText a c
  | .notEnt | .notFnc => test c fun r => r.get a == 0
  | .loadF | .loadS | .loadEnt | .loadFld | .loadFnc => .load a b c
  | .loadV => .loadVector a b c
  | .address => .address a b c
  | .storeF | .storeS | .storeEnt | .storeFld | .storeFnc => move a b 1
  | .storeV => move a b 3
  | .storepF | .storepS | .storepEnt | .storepFld | .storepFnc => .store a b
  | .storepV => .storeVector a b
  | .if_ => .jump (fun r => r.get a != 0) (distance s.b)
  | .ifNot => .jump (fun r => r.get a == 0) (distance s.b)
  | .goto => .jump (fun _ => true) (distance s.a)
  | .call0 => .call a 0
  | .call1 => .call a 1
  | .call2 => .call a 2
  | .call3 => .call a 3
  | .call4 => .call a 4
  | .call5 => .call a 5
  | .call6 => .call a 6
  | .call7 => .call a 7
  | .call8 => .call a 8
  | .state => .state a b

end Instruction

end QuakeVm
