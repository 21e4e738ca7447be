import QuakeVm.Bytes

/-!
# Color markup

Console text carries codes behind a caret: `^0` to `^9` choose a palette color, `^xRGB` a color by
three hexadecimal digits, `^a` switches the alternate character set on or off, and `^^` is a caret.
A caret before anything else is plain text.

Colors are multiplied with the tint of the text; before the first code the tint itself is the color.
-/

namespace QuakeVm.Markup

/-- Red, green, blue and opacity. -/
structure Color where
  r : Float32
  g : Float32
  b : Float32
  a : Float32

/-- Full white. -/
def Color.white : Color := ⟨1, 1, 1, 1⟩

/-- An opaque color seen through a tint. -/
def Color.tinted (tint : Color) (r g b : Float32) : Color :=
  ⟨r * tint.r, g * tint.g, b * tint.b, 1 * tint.a⟩

/-- A visible character. -/
structure Glyph where
  char : UInt8
  color : Color

/-- The palette color of a digit. -/
def palette (tint : Color) (d : Nat) : Color :=
  match d with
  | 0 => tint.tinted 0 0 0
  | 1 => tint.tinted 1 0 0
  | 2 => tint.tinted 0 1 0
  | 3 => tint.tinted 1 1 0
  | 4 => tint.tinted 0 0 1
  | 5 => tint.tinted 0 1 1
  | 6 => tint.tinted 1 0 1
  | 7 => tint.tinted 1 1 1
  | 8 => tint.tinted 0.5 0.5 0.5
  | _ => tint.tinted 0.75 0.75 0.75

/-- The brightness that a hexadecimal digit stands for. -/
def brightness (d : Nat) : Float32 := Float32.ofNat d / 15

/-- The color of three hexadecimal digits. -/
def hexColor? (tint : Color) (r g b : UInt8) : Option Color :=
  match Bytes.hexValue? r, Bytes.hexValue? g, Bytes.hexValue? b with
  | some r, some g, some b => some (tint.tinted (brightness r) (brightness g) (brightness b))
  | _, _, _ => none

/-- A code at the front of a text. -/
inductive Code where
  | color (c : Color)
  | toggle

/-- The code at the front of a text, and the text after it. -/
def code? (tint : Color) : Bytes → Option (Code × Bytes)
  | 0x5e :: d :: rest =>
    if Bytes.isDigit d then some (.color (palette tint (Bytes.digitValue d)), rest)
    else if d == 0x61 then some (.toggle, rest)
    else if d == 0x78 then
      match rest with
      | r :: g :: b :: rest => (hexColor? tint r g b).map fun c => (.color c, rest)
      | _ => none
    else none
  | _ => none

/-- A code is at least two bytes long. -/
theorem length_code?_lt {tint : Color} {s rest : Bytes} {c : Code}
    (h : code? tint s = some (c, rest)) : rest.length < s.length := by
  unfold code? at h
  split at h
  · split at h
    · simp only [Option.some.injEq, Prod.mk.injEq] at h
      simp only [List.length_cons, ← h.2]
      omega
    · split at h
      · simp only [Option.some.injEq, Prod.mk.injEq] at h
        simp only [List.length_cons, ← h.2]
        omega
      · split at h
        · split at h
          · obtain ⟨k, -, hk⟩ := Option.map_eq_some_iff.mp h
            simp only [Prod.mk.injEq] at hk
            simp only [List.length_cons, ← hk.2]
            omega
          · simp at h
        · simp at h
  · simp at h

/-- The plain character at the front of a text, and the text after it. Two carets are one. -/
def plain? : Bytes → Option (UInt8 × Bytes)
  | [] => none
  | 0x5e :: 0x5e :: rest => some (0x5e, rest)
  | c :: rest => some (c, rest)

theorem length_plain?_lt {s rest : Bytes} {c : UInt8} (h : plain? s = some (c, rest)) :
    rest.length < s.length := by
  unfold plain? at h
  split at h
  · cases h
  · cases h
    exact Nat.lt_succ_of_lt (Nat.lt_succ_self _)
  · cases h
    exact Nat.lt_succ_self _

/-- The visible characters of a text, from a current color and the high bit of the character set. -/
def glyphsFrom (tint color : Color) (mask : UInt8) (s : Bytes) : List Glyph :=
  match _h : code? tint s with
  | some (.color c, rest) => glyphsFrom tint c mask rest
  | some (.toggle, rest) => glyphsFrom tint color (mask ^^^ 0x80) rest
  | none =>
    match _h : plain? s with
    | none => []
    | some (c, rest) => ⟨c ||| mask, color⟩ :: glyphsFrom tint color mask rest
termination_by s.length
decreasing_by
  · exact length_code?_lt _h
  · exact length_code?_lt _h
  · exact length_plain?_lt _h

/-- The visible characters of a text under a tint. -/
def glyphs (tint : Color) (s : Bytes) : List Glyph := glyphsFrom tint tint 0 s

/-- The number of visible characters. -/
def visibleLength (s : Bytes) : Nat := (glyphs .white s).length

/-- The text without its markup. -/
def decolorize (s : Bytes) : Bytes := (glyphs .white s).map (·.char)

end QuakeVm.Markup
