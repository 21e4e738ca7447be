import QuakeVm.Bytes

/-!
# Reading bytes as UTF-8 text

`lossy` reads a byte string as UTF-8 and never fails: every piece that is not UTF-8 becomes one
U+FFFD. A piece is as long as it still looks like the beginning of a character, so a cut-off
three-byte character gives one replacement and a lone continuation byte gives one as well.
-/

namespace QuakeVm.Text

/-- The character that stands for a piece that is not UTF-8. -/
def replacement : Char := '�'

/-- A byte that continues a character: `0x80` to `0xbf`. -/
def isTail (b : UInt8) : Bool := 0x80 ≤ b && b ≤ 0xbf

/--
What must follow a first byte of a longer character: the number of bytes still owed, and the least
and the greatest second byte. The narrower ranges exclude overlong forms, surrogates and code
points above U+10FFFF.
-/
def leading? (a : UInt8) : Option (Nat × UInt8 × UInt8) :=
  if 0xc2 ≤ a && a ≤ 0xdf then some (1, 0x80, 0xbf)
  else if a == 0xe0 then some (2, 0xa0, 0xbf)
  else if a == 0xed then some (2, 0x80, 0x9f)
  else if 0xe1 ≤ a && a ≤ 0xef then some (2, 0x80, 0xbf)
  else if a == 0xf0 then some (3, 0x90, 0xbf)
  else if 0xf1 ≤ a && a ≤ 0xf3 then some (3, 0x80, 0xbf)
  else if a == 0xf4 then some (3, 0x80, 0x8f)
  else none

/-- The payload of a continuation byte. -/
def tailBits (b : UInt8) : Nat := b.toNat % 0x40

/--
The first character of `a :: rest` and the bytes after it. A malformed beginning is read as the
replacement character and takes only the bytes that fitted.
-/
def firstChar (a : UInt8) (rest : Bytes) : Char × Bytes :=
  if a < 0x80 then (Char.ofNat a.toNat, rest)
  else
    match leading? a, rest with
    | none, _ => (replacement, rest)
    | some _, [] => (replacement, [])
    | some (owed, low, high), b :: rest₁ =>
      if b < low || high < b then (replacement, rest)
      else if owed == 1 then (Char.ofNat (a.toNat % 0x20 * 0x40 + tailBits b), rest₁)
      else
        match rest₁ with
        | [] => (replacement, [])
        | c :: rest₂ =>
          if !isTail c then (replacement, rest₁)
          else if owed == 2 then
            (Char.ofNat ((a.toNat % 0x10 * 0x40 + tailBits b) * 0x40 + tailBits c), rest₂)
          else
            match rest₂ with
            | [] => (replacement, [])
            | d :: rest₃ =>
              if !isTail d then (replacement, rest₂)
              else
                (Char.ofNat (((a.toNat % 0x08 * 0x40 + tailBits b) * 0x40 + tailBits c) * 0x40
                  + tailBits d), rest₃)

/-- Reading a character leaves no more bytes than followed its first. -/
theorem length_firstChar_le (a : UInt8) (rest : Bytes) :
    (firstChar a rest).2.length ≤ rest.length := by
  unfold firstChar
  repeat' split
  all_goals simp_all <;> omega

/-- The characters of a byte string read as UTF-8. -/
def lossyChars : Bytes → List Char
  | [] => []
  | a :: rest => (firstChar a rest).1 :: lossyChars (firstChar a rest).2
termination_by s => s.length
decreasing_by
  have := length_firstChar_le a rest
  simp only [List.length_cons]
  omega

/-- A byte string read as UTF-8 text. -/
def lossy (s : Bytes) : String := String.ofList (lossyChars s)

end QuakeVm.Text
