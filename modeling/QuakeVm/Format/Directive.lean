import QuakeVm.Number.Digits

/-!
# Directives of a format string

A format string is literal bytes, `%%`, and directives of the shape

    % [N$] flags [width] [.precision] [h|l]* conversion

where a width or a precision is a numeral, `*`, or `*N$`. This module reads a format string into a
list of items and writes the flags, width and precision of a directive back as text; nothing here
looks at the arguments.

A directive that does not fit the shape ends the list: everything from its `%` on is kept as one
`malformed` item.

## Termination

Each directive ends with its conversion character, so the rest of the format is shorter than what
was read (`length_scan?_lt`), and `items` recurses on the length.
-/

namespace QuakeVm.Format

/-- The flags `#`, `0`, `-`, space and `+`. -/
structure Flags where
  alt : Bool := false
  zero : Bool := false
  left : Bool := false
  space : Bool := false
  plus : Bool := false
  deriving Repr, DecidableEq

/-- Where a width or a precision comes from. Positions count from zero. -/
inductive Count where
  | literal (n : Nat)
  | star
  | starAt (position : Nat)
  deriving Repr, DecidableEq

/-- How the register of a numeric conversion is read. -/
inductive Source where
  | float
  | int
  deriving Repr, DecidableEq

/-- The conversion character of a directive. -/
inductive Conversion where
  | decimal
  | integer
  | octal
  | unsigned
  | hex (upper : Bool)
  | pointer (upper : Bool)
  | scientific (upper : Bool)
  | fixed (upper : Bool)
  | general (upper : Bool)
  | character
  | string
  | vector (upper : Bool)
  deriving Repr, DecidableEq

namespace Conversion

/-- The conversion that a byte names. -/
def ofByte? (c : UInt8) : Option Conversion :=
  if c == 0x64 then some .decimal
  else if c == 0x69 then some .integer
  else if c == 0x6f then some .octal
  else if c == 0x75 then some .unsigned
  else if c == 0x78 then some (.hex false)
  else if c == 0x58 then some (.hex true)
  else if c == 0x70 then some (.pointer false)
  else if c == 0x50 then some (.pointer true)
  else if c == 0x65 then some (.scientific false)
  else if c == 0x45 then some (.scientific true)
  else if c == 0x66 then some (.fixed false)
  else if c == 0x46 then some (.fixed true)
  else if c == 0x67 then some (.general false)
  else if c == 0x47 then some (.general true)
  else if c == 0x63 then some .character
  else if c == 0x73 then some .string
  else if c == 0x76 then some (.vector false)
  else if c == 0x56 then some (.vector true)
  else none

/-- The source of a directive without a length modifier: only `i`, `p` and `P` read an integer. -/
def source : Conversion → Source
  | .integer | .pointer _ => .int
  | _ => .float

end Conversion

/-- One directive. -/
structure Directive where
  position : Option Nat := none
  flags : Flags := {}
  width : Option Count := none
  precision : Option Count := none
  modifier : Option Source := none
  conversion : Conversion
  deriving Repr, DecidableEq

/-- A piece of a format string. -/
inductive Item where
  | literal (c : UInt8)
  | percent
  | directive (d : Directive)
  | malformed (tail : Bytes)
  deriving Repr, DecidableEq

/-! ## Reading -/

/-- The numeral at the front, if there is one. -/
def numeral? (s : Bytes) : Option (Nat × Bytes) :=
  match s.takeWhile Bytes.isDigit with
  | [] => none
  | ds => some (ds.foldl (fun n c => n * 10 + Bytes.digitValue c) 0, s.dropWhile Bytes.isDigit)

/-- `N$` at the front as a position. `0$` is an error; anything else is no position. -/
def position? (s : Bytes) : Option (Option Nat × Bytes) :=
  match numeral? s with
  | some (n, 0x24 :: rest) => if n == 0 then none else some (some (n - 1), rest)
  | _ => some (none, s)

/-- The flags at the front, in any order and number. -/
def flags (f : Flags) : Bytes → Flags × Bytes
  | [] => (f, [])
  | c :: rest =>
    if c == 0x23 then flags { f with alt := true } rest
    else if c == 0x30 then flags { f with zero := true } rest
    else if c == 0x2d then flags { f with left := true } rest
    else if c == 0x20 then flags { f with space := true } rest
    else if c == 0x2b then flags { f with plus := true } rest
    else (f, c :: rest)

/-- What follows a star: a position, or nothing. A numeral without `$` is an error. -/
def afterStar? (s : Bytes) : Option (Count × Bytes) :=
  match position? s with
  | none => none
  | some (some n, rest) => some (.starAt n, rest)
  | some (none, _) => if (numeral? s).isSome then none else some (.star, s)

/-- The width at the front, if there is one. -/
def width? (s : Bytes) : Option (Option Count × Bytes) :=
  match s with
  | 0x2a :: rest => (afterStar? rest).map fun r => (some r.1, r.2)
  | s =>
    match numeral? s with
    | some (n, rest) => some (some (.literal n), rest)
    | none => some (none, s)

/-- The precision at the front, if there is one. A point alone means zero. -/
def precision? (s : Bytes) : Option (Option Count × Bytes) :=
  match s with
  | 0x2e :: 0x2a :: rest => (afterStar? rest).map fun r => (some r.1, r.2)
  | 0x2e :: rest =>
    match numeral? rest with
    | some (n, rest) => some (some (.literal n), rest)
    | none => some (some (.literal 0), rest)
  | s => some (none, s)

/-- The length modifiers at the front; the last one counts. -/
def modifiers (m : Option Source) : Bytes → Option Source × Bytes
  | [] => (m, [])
  | c :: rest =>
    if c == 0x68 then modifiers (some .float) rest
    else if c == 0x6c then modifiers (some .int) rest
    else (m, c :: rest)

/-- The directive after a `%`, and the rest of the format. -/
def scan? (s : Bytes) : Option (Directive × Bytes) :=
  match position? s with
  | none => none
  | some (position, s₁) =>
    let (f, s₂) := flags {} s₁
    match width? s₂ with
    | none => none
    | some (width, s₃) =>
      match precision? s₃ with
      | none => none
      | some (precision, s₄) =>
        match modifiers none s₄ with
        | (_, []) => none
        | (modifier, c :: rest) =>
          (Conversion.ofByte? c).map fun conversion =>
            ({ position, flags := f, width, precision, modifier, conversion }, rest)

/-! ### Nothing read makes the format longer -/

theorem length_numeral?_le {s rest : Bytes} {n : Nat} (h : numeral? s = some (n, rest)) :
    rest.length ≤ s.length := by
  unfold numeral? at h
  split at h
  · simp at h
  · simp only [Option.some.injEq, Prod.mk.injEq] at h
    rw [← h.2]
    exact (List.dropWhile_sublist _).length_le

theorem length_position?_le {s rest : Bytes} {p : Option Nat}
    (h : position? s = some (p, rest)) : rest.length ≤ s.length := by
  unfold position? at h
  split at h
  · rename_i n rest' hn
    have := length_numeral?_le hn
    simp only [List.length_cons] at this
    split at h
    · simp at h
    · simp only [Option.some.injEq, Prod.mk.injEq] at h
      rw [← h.2]
      omega
  · simp only [Option.some.injEq, Prod.mk.injEq] at h
    exact Nat.le_of_eq (by rw [h.2])

theorem length_flags_le (f : Flags) (s : Bytes) : (flags f s).2.length ≤ s.length := by
  induction s generalizing f with
  | nil => simp [flags]
  | cons c rest ih =>
    unfold flags
    repeat' split
    all_goals first
      | exact Nat.le_succ_of_le (ih _)
      | simp

theorem length_afterStar?_le {s rest : Bytes} {c : Count}
    (h : afterStar? s = some (c, rest)) : rest.length ≤ s.length := by
  unfold afterStar? at h
  split at h
  · simp at h
  · rename_i n rest' hp
    have := length_position?_le hp
    simp_all
  · split at h <;> simp_all

theorem length_width?_le {s rest : Bytes} {w : Option Count}
    (h : width? s = some (w, rest)) : rest.length ≤ s.length := by
  unfold width? at h
  split at h
  · rename_i rest'
    obtain ⟨⟨c, r⟩, hr, he⟩ := Option.map_eq_some_iff.mp h
    have := length_afterStar?_le hr
    simp_all
    omega
  · split at h
    · rename_i n rest' hn
      have := length_numeral?_le hn
      simp_all
    · simp_all

theorem length_precision?_le {s rest : Bytes} {p : Option Count}
    (h : precision? s = some (p, rest)) : rest.length ≤ s.length := by
  unfold precision? at h
  split at h
  · rename_i rest'
    obtain ⟨⟨c, r⟩, hr, he⟩ := Option.map_eq_some_iff.mp h
    have := length_afterStar?_le hr
    simp_all
    omega
  · split at h
    · rename_i n rest' hn
      have := length_numeral?_le hn
      simp_all
      omega
    · simp_all
  · simp_all

theorem length_modifiers_le (m : Option Source) (s : Bytes) :
    (modifiers m s).2.length ≤ s.length := by
  induction s generalizing m with
  | nil => simp [modifiers]
  | cons c rest ih =>
    unfold modifiers
    repeat' split
    all_goals first
      | exact Nat.le_succ_of_le (ih _)
      | simp

/-- What follows a directive is shorter than what was read. -/
theorem length_scan?_lt {s rest : Bytes} {d : Directive} (h : scan? s = some (d, rest)) :
    rest.length < s.length := by
  unfold scan? at h
  split at h
  · simp at h
  · rename_i p s₁ hp
    have h₁ := length_position?_le hp
    have h₂ := length_flags_le {} s₁
    simp only at h
    split at h
    · simp at h
    · rename_i w s₃ hw
      have h₃ := length_width?_le hw
      split at h
      · simp at h
      · rename_i q s₄ hq
        have h₄ := length_precision?_le hq
        have h₅ := length_modifiers_le none s₄
        split at h
        · simp at h
        · rename_i m c r hm
          rw [hm] at h₅
          obtain ⟨k, hk, he⟩ := Option.map_eq_some_iff.mp h
          simp only [Prod.mk.injEq] at he
          simp only [List.length_cons] at h₅
          rw [← he.2]
          omega

/-- The items of a format string. -/
def items : Bytes → List Item
  | [] => []
  | 0x25 :: 0x25 :: rest => .percent :: items rest
  | 0x25 :: rest =>
    match _h : scan? rest with
    | some (d, rest') => .directive d :: items rest'
    | none => [.malformed (0x25 :: rest)]
  | c :: rest => .literal c :: items rest
termination_by s => s.length
decreasing_by
  · simp only [List.length_cons]
    omega
  · have := length_scan?_lt _h
    simp only [List.length_cons]
    omega
  · simp only [List.length_cons]
    omega

end QuakeVm.Format
