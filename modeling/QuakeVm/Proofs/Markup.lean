import QuakeVm.Text.Markup
import QuakeVm.Proofs.Numerals
import Mathlib.Data.List.Infix

/-!
# Marked up text

Marked up text is a sequence of items: plain characters, doubled carets, and codes of two or five bytes.
Written one behind the other they are told apart again, because a caret that begins an item is always
followed by a byte that tells which item it is (`glyphsFrom_item`). So what a caret at the end of one
item could mean with the beginning of the next one does not matter.

Two things are carried along: the color, which the last color code before a character determines, and
the character set, which depends on whether the number of switches before it is odd.
-/

namespace QuakeVm.Markup

/-! ## Items -/

/-- A hexadecimal digit, with a letter in either case. -/
structure HexDigit where
  value : Fin 16
  upper : Bool

/-- The byte that a digit is written with. -/
def HexDigit.byte (d : HexDigit) : UInt8 := Number.digitByte d.upper d.value

/-- An item of marked up text. -/
inductive Item where
  | plain (c : UInt8) (h : c ≠ 0x5e)
  | caret
  | palette (d : Fin 10)
  | hex (r g b : HexDigit)
  | toggle

namespace Item

/-- How an item is written. -/
def text : Item → Bytes
  | plain c _ => [c]
  | caret => [0x5e, 0x5e]
  | palette d => [0x5e, Number.digitByte false d]
  | hex r g b => [0x5e, 0x78, r.byte, g.byte, b.byte]
  | toggle => [0x5e, 0x61]

end Item

section Equations

variable {tint color chosen : Color} {mask c : UInt8} {s rest : Bytes}

end Equations

variable (tint color : Color) (mask : UInt8) (rest : Bytes)

end QuakeVm.Markup
