/-!
# Byte strings

A string of a program is a sequence of bytes without an encoding. Programs are older than any
agreement on what a byte above `0x7f` means, so nothing here interprets one: letters, digits and
blanks are the ASCII ones, and case mapping touches ASCII letters only.

Searching and splitting are by recursion on the list, so none of them needs an index.
-/

namespace QuakeVm

/-- A string of a program. -/
abbrev Bytes := List UInt8

namespace Bytes

/-! ## Classes of bytes -/

/-- `0` to `9`. -/
def isDigit (c : UInt8) : Bool := 0x30 ≤ c && c ≤ 0x39

/-- `A` to `Z`. -/
def isUpper (c : UInt8) : Bool := 0x41 ≤ c && c ≤ 0x5a

/-- `a` to `z`. -/
def isLower (c : UInt8) : Bool := 0x61 ≤ c && c ≤ 0x7a

/-- An ASCII letter of either case. -/
def isAlpha (c : UInt8) : Bool := isUpper c || isLower c

/-- Space, tab, line feed, form feed and carriage return. The vertical tab is not a blank. -/
def isBlank (c : UInt8) : Bool := c == 0x20 || c == 0x09 || c == 0x0a || c == 0x0c || c == 0x0d

/-- The value of a decimal digit. -/
def digitValue (c : UInt8) : Nat := c.toNat - 0x30

/-- The value of a hexadecimal digit of either case. -/
def hexValue? (c : UInt8) : Option Nat :=
  if isDigit c then some (c.toNat - 0x30)
  else if 0x61 ≤ c && c ≤ 0x66 then some (c.toNat - 0x61 + 10)
  else if 0x41 ≤ c && c ≤ 0x46 then some (c.toNat - 0x41 + 10)
  else none

/-- The lower-case form of an ASCII letter; any other byte is unchanged. -/
def lowerByte (c : UInt8) : UInt8 := if isUpper c then c + 0x20 else c

/-- The upper-case form of an ASCII letter; any other byte is unchanged. -/
def upperByte (c : UInt8) : UInt8 := if isLower c then c - 0x20 else c

/-- All letters in lower case. -/
def lower (s : Bytes) : Bytes := s.map lowerByte

/-- All letters in upper case. -/
def upper (s : Bytes) : Bytes := s.map upperByte

/-! ## Between text and bytes -/

/-- The UTF-8 form of a text. -/
def ofText (s : String) : Bytes := s.toUTF8.data.toList

/-- The part before the first NUL, or everything if there is none. -/
def untilNul (s : Bytes) : Bytes := s.takeWhile (· != 0)

/-! ## Searching and splitting -/

/-- The offset of the first occurrence of `needle`. The empty needle occurs at once. -/
def indexOf? (needle : Bytes) : Bytes → Option Nat
  | [] => if needle.isEmpty then some 0 else none
  | c :: rest =>
    if needle.isPrefixOf (c :: rest) then some 0 else (indexOf? needle rest).map (· + 1)

/-- The first occurrence of `needle` at or after `start`, counted from the beginning of `hay`. -/
def indexFrom? (needle hay : Bytes) (start : Nat) : Option Nat :=
  if hay.length < start then none else (indexOf? needle (hay.drop start)).map (· + start)

/-- The fields between the occurrences of `sep`, empty ones included; never the empty list. -/
def split (sep : UInt8) : Bytes → List Bytes
  | [] => [[]]
  | c :: rest =>
    if c == sep then [] :: split sep rest
    else
      match split sep rest with
      | [] => [[c]]
      | field :: fields => (c :: field) :: fields

/-- `s` without one trailing `c`, if it ends in one. -/
def dropLastIf (c : UInt8) (s : Bytes) : Bytes :=
  if s.getLast? == some c then s.dropLast else s

/-- Lexicographic comparison, byte by byte; an initial segment comes first. -/
def cmp : Bytes → Bytes → Ordering
  | [], [] => .eq
  | [], _ :: _ => .lt
  | _ :: _, [] => .gt
  | a :: as, b :: bs => if a < b then .lt else if b < a then .gt else cmp as bs

end Bytes

end QuakeVm
