import QuakeVm.Format.Render
import Mathlib.Data.Nat.Digits.Defs

/-!
# Format strings mean what their grammar says

A format string is written as a list of pieces: bytes that stand for themselves, `%%`, and directives
with a position, flags, a width, a precision and modifiers, all of which may be left out. This module
writes the pieces down as data, together with their text and the output that they ask for, and shows
that rendering the text gives that output.

Positions, the flag `0`, widths and precisions share their digits, so the reader decides by what
follows. Two facts carry the proof. A part of a directive never begins with a byte that would continue
the part before it. And a directive without a position has something other than `$` behind the digits
at its front.
-/

namespace QuakeVm.Format

/-! ## The grammar -/

/-- A decimal numeral as it is written, with or without zeros at its front. -/
structure Numeral where
  digits : Bytes
  ne_nil : digits ≠ []
  isDigit : ∀ c ∈ digits, Bytes.isDigit c = true

/-- The number that a numeral stands for. -/
def Numeral.value (n : Numeral) : Nat :=
  Nat.ofDigits 10 (n.digits.map Bytes.digitValue).reverse

/-- A numeral that counts arguments from one. -/
structure Position extends Numeral where
  pos : 1 ≤ toNumeral.value

/-- The argument of a position, counted from zero. -/
def Position.index (p : Position) : Nat := p.toNumeral.value - 1

/-- One flag. -/
inductive Flag where
  | alt
  | zero
  | left
  | space
  | plus
  deriving Repr, DecidableEq

/-- A width as it is written. A zero at its front would be a flag. -/
inductive Width where
  | numeral (n : Numeral) (h : n.digits.head? ≠ some 0x30)
  | star
  | starAt (p : Position)

/-- A precision as it is written. -/
inductive Precision where
  | point
  | numeral (n : Numeral)
  | star
  | starAt (p : Position)

/-- One length modifier. -/
inductive Modifier where
  | half
  | long
  deriving Repr, DecidableEq

/-- A directive as it is written. -/
structure Spelling where
  position : Option Position := none
  flags : List Flag := []
  width : Option Width := none
  precision : Option Precision := none
  modifiers : List Modifier := []
  conversion : Conversion

/-- A piece of a format string as it is written. -/
inductive Piece where
  | literal (c : UInt8) (h : c ≠ 0x25)
  | percent
  | directive (d : Spelling)

/-! ## The text of the pieces -/

/-- The byte of a flag: one of `#0- +`. -/
def Flag.byte : Flag → UInt8
  | .alt => 0x23
  | .zero => 0x30
  | .left => 0x2d
  | .space => 0x20
  | .plus => 0x2b

/-- `h` or `l`. -/
def Modifier.byte : Modifier → UInt8
  | .half => 0x68
  | .long => 0x6c

/-- The byte that names a conversion: one of `dioux`, `X`, `pP`, `eE`, `fF`, `gG`, `c`, `s`, `vV`. -/
def Conversion.byte : Conversion → UInt8
  | .decimal => 0x64
  | .integer => 0x69
  | .octal => 0x6f
  | .unsigned => 0x75
  | .hex upper => if upper then 0x58 else 0x78
  | .pointer upper => if upper then 0x50 else 0x70
  | .scientific upper => if upper then 0x45 else 0x65
  | .fixed upper => if upper then 0x46 else 0x66
  | .general upper => if upper then 0x47 else 0x67
  | .character => 0x63
  | .string => 0x73
  | .vector upper => if upper then 0x56 else 0x76

/-- `N$`. -/
def Position.text (p : Position) : Bytes := p.digits ++ [0x24]

/-- A numeral, `*` or `*N$`. -/
def Width.text : Width → Bytes
  | .numeral n _ => n.digits
  | .star => [0x2a]
  | .starAt p => 0x2a :: p.text

/-- A point, and a numeral, `*`, `*N$` or nothing behind it. -/
def Precision.text : Precision → Bytes
  | .point => [0x2e]
  | .numeral n => 0x2e :: n.digits
  | .star => [0x2e, 0x2a]
  | .starAt p => 0x2e :: 0x2a :: p.text

namespace Spelling

/-- The text of a directive behind its precision. -/
def ending (d : Spelling) : Bytes := d.modifiers.map Modifier.byte ++ [d.conversion.byte]

/-- The text of a directive behind its width. -/
def afterWidth (d : Spelling) : Bytes := d.precision.elim [] Precision.text ++ d.ending

/-- The text of a directive behind its flags. -/
def afterFlags (d : Spelling) : Bytes := d.width.elim [] Width.text ++ d.afterWidth

/-- The text of a directive behind its position. -/
def afterPosition (d : Spelling) : Bytes := d.flags.map Flag.byte ++ d.afterFlags

/-- The text of a directive behind its percent sign. -/
def body (d : Spelling) : Bytes := d.position.elim [] Position.text ++ d.afterPosition

end Spelling

/-- The text of a piece. -/
def Piece.text : Piece → Bytes
  | .literal c _ => [c]
  | .percent => [0x25, 0x25]
  | .directive d => 0x25 :: d.body

/-! ## The output of the pieces -/

/-- The number that a width gives; a star without a position takes the argument `next`. -/
def Width.value (args : Arguments) (next : Nat) : Width → Int
  | .numeral n _ => n.value
  | .star => Number.toInt32 (args.float next)
  | .starAt p => Number.toInt32 (args.float p.index)

/-- The number that a precision gives; a star without a position takes the argument `next`. -/
def Precision.value (args : Arguments) (next : Nat) : Precision → Int
  | .point => 0
  | .numeral n => n.value
  | .star => Number.toInt32 (args.float next)
  | .starAt p => Number.toInt32 (args.float p.index)

/-- How a modifier has a register read. -/
def Modifier.source : Modifier → Source
  | .half => .float
  | .long => .int

namespace Spelling

/-- The arguments in order that the width takes. -/
def widthTakes (d : Spelling) : Nat :=
  match d.width with
  | some .star => 1
  | _ => 0

/-- The arguments in order that the precision takes. -/
def precisionTakes (d : Spelling) : Nat :=
  match d.precision with
  | some .star => 1
  | _ => 0

/-- The arguments in order that the value takes. -/
def valueTakes (d : Spelling) : Nat := if d.position.isNone then 1 else 0

/-- The flags that are written; a negative width also means `-`. -/
def flagsAt (d : Spelling) (args : Arguments) (next : Nat) : Flags where
  alt := decide (Flag.alt ∈ d.flags)
  zero := decide (Flag.zero ∈ d.flags)
  left := decide (Flag.left ∈ d.flags) || d.width.any fun w => w.value args next < 0
  space := decide (Flag.space ∈ d.flags)
  plus := decide (Flag.plus ∈ d.flags)

/-- The flags, the width and the precision of a directive that takes the arguments from `next` on. -/
def layoutAt (d : Spelling) (args : Arguments) (next : Nat) : Layout where
  flags := d.flagsAt args next
  width := d.width.map fun w => min (w.value args next).natAbs 1023
  precision := d.precision.bind fun p =>
    let v := p.value args (next + d.widthTakes)
    if v < 0 then none else some (min v.toNat 1023)

/-- The argument that is written out. -/
def valueAt (d : Spelling) (next : Nat) : Nat :=
  (d.position.map Position.index).getD (next + d.widthTakes + d.precisionTakes)

/-- How a register is read: as the last modifier asks for, or as the conversion does. -/
def source (d : Spelling) : Source :=
  (d.modifiers.getLast?.map Modifier.source).getD d.conversion.source

end Spelling

/-- The number of arguments in order that a piece takes. -/
def Piece.takes : Piece → Nat
  | .directive d => d.widthTakes + d.precisionTakes + d.valueTakes
  | _ => 0

/-- The output of a piece that takes the arguments from `next` on. -/
def Piece.output (args : Arguments) (next : Nat) : Piece → Bytes
  | .literal c _ => [c]
  | .percent => [0x25]
  | .directive d =>
    convert renderVector (d.layoutAt args next) args d.source (d.valueAt next) d.conversion

/-- The output of pieces, each of which takes the arguments behind those of the pieces before it. -/
def outputs (args : Arguments) (next : Nat) : List Piece → Bytes
  | [] => []
  | p :: rest => p.output args next ++ outputs args (next + p.takes) rest

/-! ## Where a part ends -/

theorem isDigit_of_isAlpha {c : UInt8} (h : Bytes.isAlpha c = true) : Bytes.isDigit c = false := by
  simp only [Bytes.isAlpha, Bytes.isUpper, Bytes.isLower, Bytes.isDigit, Bool.or_eq_true,
    Bool.and_eq_true, decide_eq_true_eq, Bool.and_eq_false_iff, decide_eq_false_iff_not,
    UInt8.le_iff_toNat_le] at h ⊢
  simp only [UInt8.reduceToNat] at h ⊢
  omega

theorem ne_of_isAlpha {c : UInt8} (h : Bytes.isAlpha c = true) {x : UInt8}
    (hx : Bytes.isAlpha x = false) : c ≠ x := by
  rintro rfl
  rw [h] at hx
  cases hx

theorem isAlpha_byte (c : Conversion) : Bytes.isAlpha c.byte = true := by
  cases c <;> first | rfl | (rename_i upper; cases upper <;> rfl)

namespace Spelling

variable (d : Spelling)

/-- The modifiers and the conversion are letters. -/
theorem ending_cons : ∃ c rest, d.ending = c :: rest ∧ Bytes.isAlpha c = true := by
  unfold ending
  cases d.modifiers with
  | nil => exact ⟨_, [], rfl, isAlpha_byte d.conversion⟩
  | cons m ms => exact ⟨m.byte, _, rfl, by cases m <;> rfl⟩

/-- A precision begins with a point. -/
theorem afterWidth_cons :
    ∃ c rest, d.afterWidth = c :: rest ∧ (c = 0x2e ∨ Bytes.isAlpha c = true) := by
  unfold afterWidth
  cases d.precision with
  | none =>
    obtain ⟨c, rest, h, hc⟩ := d.ending_cons
    exact ⟨c, rest, h, Or.inr hc⟩
  | some p => cases p <;> exact ⟨0x2e, _, rfl, Or.inl rfl⟩

end Spelling

/-! ## Reading numerals and positions -/

/-- The value of a numeral is that of its digits, read from the left. -/
theorem value_eq_foldl (n : Numeral) :
    n.digits.foldl (fun v c => v * 10 + Bytes.digitValue c) 0 = n.value := by
  rw [Numeral.value, Nat.ofDigits_eq_foldr, List.foldr_reverse, List.foldl_map]
  simp only [Nat.cast_id, Nat.mul_comm 10, Nat.add_comm]

theorem numeral?_eq_none {s : Bytes} (h : ∀ c ∈ s.head?, Bytes.isDigit c = false) :
    numeral? s = none := by
  unfold numeral?
  cases s with
  | nil => rfl
  | cons c rest => rw [List.takeWhile_cons_of_neg (by simp [h c rfl])]

/-- A numeral is read to the first byte that is no digit. -/
theorem numeral?_append (n : Numeral) {rest : Bytes}
    (h : ∀ c ∈ rest.head?, Bytes.isDigit c = false) :
    numeral? (n.digits ++ rest) = some (n.value, rest) := by
  have htake : rest.takeWhile Bytes.isDigit = [] := by
    cases rest with
    | nil => rfl
    | cons c rest => exact List.takeWhile_cons_of_neg (by simp [h c rfl])
  have hdrop : rest.dropWhile Bytes.isDigit = rest := by
    cases rest with
    | nil => rfl
    | cons c rest => exact List.dropWhile_cons_of_neg (by simp [h c rfl])
  unfold numeral?
  rw [List.takeWhile_append_of_pos n.isDigit, List.dropWhile_append_of_pos n.isDigit, htake, hdrop,
    List.append_nil]
  split
  · exact absurd ‹_› n.ne_nil
  · rw [value_eq_foldl]

theorem Numeral.head_ne_star (n : Numeral) (s : Bytes) : ∀ c ∈ (n.digits ++ s).head?, c ≠ 0x2a := by
  obtain ⟨x, ds, hds⟩ := List.exists_cons_of_ne_nil n.ne_nil
  rintro c hc rfl
  rw [hds] at hc
  cases hc
  cases n.isDigit 0x2a (hds ▸ List.mem_cons_self)

/-- The position of an argument is read with its dollar sign. -/
theorem position?_append (p : Position) (rest : Bytes) :
    position? (p.text ++ rest) = some (some p.index, rest) := by
  have hpos := p.pos
  unfold position? Position.text
  rw [List.append_assoc, numeral?_append p.toNumeral (by simp [Bytes.isDigit])]
  simp [Position.index]
  omega

/-- Something other than `$` follows the digits at the front. -/
def NoPosition (s : Bytes) : Prop := ∀ c ∈ (s.dropWhile Bytes.isDigit).head?, c ≠ 0x24

/-- Without a dollar sign behind its digits there is no position, and nothing is consumed. -/
theorem position?_eq_none {s : Bytes} (h : NoPosition s) : position? s = some (none, s) := by
  unfold position?
  split
  · rename_i n rest heq
    unfold numeral? at heq
    split at heq
    · cases heq
    · simp only [Option.some.injEq, Prod.mk.injEq] at heq
      exact absurd rfl (h 0x24 (by rw [heq.2]; rfl))
  · rfl

theorem noPosition_of_head {s : Bytes} (h : ∀ c ∈ s.head?, Bytes.isDigit c = false ∧ c ≠ 0x24) :
    NoPosition s := by
  intro c hc
  cases s with
  | nil => cases hc
  | cons x rest =>
    obtain ⟨hdigit, hne⟩ := h x rfl
    rw [List.dropWhile_cons_of_neg (by simp [hdigit])] at hc
    cases hc
    exact hne

theorem noPosition_append {l s : Bytes} (hl : ∀ c ∈ l, c ≠ 0x24) (hs : NoPosition s) :
    NoPosition (l ++ s) := by
  induction l with
  | nil => exact hs
  | cons x rest ih =>
    by_cases hx : Bytes.isDigit x = true
    · unfold NoPosition
      rw [List.cons_append, List.dropWhile_cons_of_pos hx]
      exact ih fun c hc => hl c (List.mem_cons_of_mem x hc)
    · apply noPosition_of_head
      intro c hc
      cases hc
      exact ⟨by simpa using hx, hl x List.mem_cons_self⟩

/-! ## Reading the parts of a directive -/

/-- The flags with one more. -/
def Flags.add (f : Flags) : Flag → Flags
  | .alt => { f with alt := true }
  | .zero => { f with zero := true }
  | .left => { f with left := true }
  | .space => { f with space := true }
  | .plus => { f with plus := true }

/-- The flags of a list. -/
def Flags.ofList (fs : List Flag) : Flags where
  alt := decide (Flag.alt ∈ fs)
  zero := decide (Flag.zero ∈ fs)
  left := decide (Flag.left ∈ fs)
  space := decide (Flag.space ∈ fs)
  plus := decide (Flag.plus ∈ fs)

theorem flags_cons (f : Flags) (x : Flag) (s : Bytes) : flags f (x.byte :: s) = flags (f.add x) s := by
  cases x <;> rfl

/-- Flags are read in any order and number. -/
theorem flags_append (f : Flags) (fs : List Flag) (s : Bytes) :
    flags f (fs.map Flag.byte ++ s) = flags (fs.foldl Flags.add f) s := by
  induction fs generalizing f with
  | nil => rfl
  | cons x xs ih => rw [List.map_cons, List.cons_append, flags_cons, ih, List.foldl_cons]

/-- A flag counts once, wherever it stands. -/
theorem foldl_add (fs : List Flag) (f : Flags) :
    fs.foldl Flags.add f = {
      alt := f.alt || decide (Flag.alt ∈ fs)
      zero := f.zero || decide (Flag.zero ∈ fs)
      left := f.left || decide (Flag.left ∈ fs)
      space := f.space || decide (Flag.space ∈ fs)
      plus := f.plus || decide (Flag.plus ∈ fs) } := by
  induction fs generalizing f with
  | nil => simp
  | cons x xs ih =>
    rw [List.foldl_cons, ih]
    cases x <;> simp [Flags.add]

/-- The flags end at the first byte that is none. -/
theorem flags_stop {c : UInt8} (h : ∀ x : Flag, c ≠ x.byte) (f : Flags) (s : Bytes) :
    flags f (c :: s) = (f, c :: s) := by
  have h₁ : c ≠ 0x23 := h .alt
  have h₂ : c ≠ 0x30 := h .zero
  have h₃ : c ≠ 0x2d := h .left
  have h₄ : c ≠ 0x20 := h .space
  have h₅ : c ≠ 0x2b := h .plus
  simp [flags, h₁, h₂, h₃, h₄, h₅]

/-- Where a width comes from. -/
def Width.count : Width → Count
  | .numeral n _ => .literal n.value
  | .star => .star
  | .starAt p => .starAt p.index

/-- Where a precision comes from. -/
def Precision.count : Precision → Count
  | .point => .literal 0
  | .numeral n => .literal n.value
  | .star => .star
  | .starAt p => .starAt p.index

theorem afterStar?_of_head {s : Bytes} (h : ∀ c ∈ s.head?, Bytes.isDigit c = false ∧ c ≠ 0x24) :
    afterStar? s = some (.star, s) := by
  unfold afterStar?
  rw [position?_eq_none (noPosition_of_head h), numeral?_eq_none fun c hc => (h c hc).1]
  rfl

theorem afterStar?_append (p : Position) (rest : Bytes) :
    afterStar? (p.text ++ rest) = some (.starAt p.index, rest) := by
  unfold afterStar?
  rw [position?_append]

theorem width?_of_ne {s : Bytes} (h : ∀ c ∈ s.head?, c ≠ 0x2a) :
    width? s = match numeral? s with
      | some (n, rest) => some (some (.literal n), rest)
      | none => some (none, s) := by
  unfold width?
  split
  · exact absurd rfl (h 0x2a rfl)
  · rfl

theorem precision?_of_ne {s : Bytes} (h : ∀ c ∈ s.head?, c ≠ 0x2e) :
    precision? s = some (none, s) := by
  unfold precision?
  split
  · exact absurd rfl (h 0x2e rfl)
  · exact absurd rfl (h 0x2e rfl)
  · rfl

/-- A point without digits is the precision 0. -/
theorem precision?_point {s : Bytes} (h : ∀ c ∈ s.head?, c ≠ 0x2a) :
    precision? (0x2e :: s) = match numeral? s with
      | some (n, rest) => some (some (.literal n), rest)
      | none => some (some (.literal 0), s) := by
  unfold precision?
  split
  · rename_i heq
    cases heq
    exact absurd rfl (h 0x2a rfl)
  · rename_i heq
    cases heq
    rfl
  · rename_i hne
    exact absurd rfl (hne s)

/-- Of several modifiers the last counts. -/
theorem modifiers_append (m : Option Source) (ms : List Modifier) (s : Bytes) :
    modifiers m (ms.map Modifier.byte ++ s) =
      modifiers (((ms.map Modifier.source).getLast?).or m) s := by
  induction ms generalizing m with
  | nil => simp
  | cons x xs ih =>
    have hstep (s : Bytes) : modifiers m (x.byte :: s) = modifiers (some x.source) s := by
      cases x <;> rfl
    rw [List.map_cons, List.cons_append, hstep, ih, List.map_cons, List.getLast?_cons,
      Option.some_or]
    congr 1
    cases (xs.map Modifier.source).getLast? <;> rfl

/-- Every conversion is known by its letter. -/
theorem ofByte?_byte (c : Conversion) : Conversion.ofByte? c.byte = some c := by
  cases c <;> first | rfl | (rename_i upper; cases upper <;> rfl)

/-! ## Reading a directive -/

namespace Spelling

variable (d : Spelling)

/-- What is read for a directive. -/
def directive : Directive where
  position := d.position.map Position.index
  flags := .ofList d.flags
  width := d.width.map Width.count
  precision := d.precision.map Precision.count
  modifier := d.modifiers.getLast?.map Modifier.source
  conversion := d.conversion

/-- The byte behind the width is no digit, and none of `$` and `*`. -/
theorem head_afterWidth (rest : Bytes) : ∀ c ∈ (d.afterWidth ++ rest).head?,
    (Bytes.isDigit c = false ∧ c ≠ 0x24) ∧ c ≠ 0x2a := by
  obtain ⟨c, s, h, hc⟩ := d.afterWidth_cons
  rw [h]
  intro x hx
  cases hx
  rcases hc with rfl | hc
  · decide
  · exact ⟨⟨isDigit_of_isAlpha hc, ne_of_isAlpha hc rfl⟩, ne_of_isAlpha hc rfl⟩

/-- The byte behind the precision is no digit, and none of `$`, `*` and `.`. -/
theorem head_ending (rest : Bytes) : ∀ c ∈ (d.ending ++ rest).head?,
    (Bytes.isDigit c = false ∧ c ≠ 0x24) ∧ c ≠ 0x2a ∧ c ≠ 0x2e := by
  obtain ⟨c, s, h, hc⟩ := d.ending_cons
  rw [h]
  intro x hx
  cases hx
  exact ⟨⟨isDigit_of_isAlpha hc, ne_of_isAlpha hc rfl⟩, ne_of_isAlpha hc rfl, ne_of_isAlpha hc rfl⟩

/-- What follows the position cannot be taken for another one. -/
theorem noPosition_afterPosition (rest : Bytes) : NoPosition (d.afterPosition ++ rest) := by
  have hwidth : NoPosition (d.afterWidth ++ rest) :=
    noPosition_of_head fun c hc => (d.head_afterWidth rest c hc).1
  unfold afterPosition afterFlags
  rw [List.append_assoc, List.append_assoc]
  refine noPosition_append (fun c hc => ?_) ?_
  · obtain ⟨x, -, rfl⟩ := List.mem_map.mp hc
    cases x <;> decide
  · cases d.width with
    | none => exact hwidth
    | some w =>
      cases w with
      | numeral n h =>
        refine noPosition_append (fun c hc => ?_) hwidth
        rintro rfl
        cases n.isDigit 0x24 hc
      | star => exact noPosition_of_head fun c hc => by cases hc; decide
      | starAt p => exact noPosition_of_head fun c hc => by cases hc; decide

/-- The position of a directive is read first. -/
theorem position?_body (rest : Bytes) : position? (d.body ++ rest) =
    some (d.position.map Position.index, d.afterPosition ++ rest) := by
  unfold body
  cases d.position with
  | some p =>
    rw [Option.elim_some, List.append_assoc, position?_append]
    rfl
  | none => exact position?_eq_none (d.noPosition_afterPosition rest)

/-- The byte behind the flags is none of them. -/
theorem afterFlags_cons (rest : Bytes) :
    ∃ c s, d.afterFlags ++ rest = c :: s ∧ ∀ x : Flag, c ≠ x.byte := by
  unfold afterFlags
  cases d.width with
  | none =>
    obtain ⟨c, s, h, hc⟩ := d.afterWidth_cons
    refine ⟨c, s ++ rest, by rw [Option.elim_none, h]; rfl, fun x => ?_⟩
    rcases hc with rfl | hc
    · cases x <;> decide
    · exact ne_of_isAlpha hc (by cases x <;> rfl)
  | some w =>
    cases w with
    | numeral n h =>
      obtain ⟨c, ds, hds⟩ := List.exists_cons_of_ne_nil n.ne_nil
      refine ⟨c, ds ++ d.afterWidth ++ rest, by simp [Width.text, hds], fun x hx => ?_⟩
      have hdigit := n.isDigit c (hds ▸ List.mem_cons_self)
      rw [hds, List.head?_cons] at h
      -- The only flag that is a digit is the zero, and no width begins with it.
      cases x <;> subst hx <;> first | exact h rfl | cases hdigit
    | star => exact ⟨0x2a, _, rfl, fun x => by cases x <;> decide⟩
    | starAt p => exact ⟨0x2a, _, rfl, fun x => by cases x <;> decide⟩

/-- The flags of a directive are read behind its position. -/
theorem flags_afterPosition (rest : Bytes) : Format.flags {} (d.afterPosition ++ rest) =
    (Flags.ofList d.flags, d.afterFlags ++ rest) := by
  obtain ⟨c, s, h, hc⟩ := d.afterFlags_cons rest
  unfold afterPosition
  rw [List.append_assoc, flags_append, h, flags_stop hc, foldl_add]
  simp [Flags.ofList]

/-- The width of a directive is read behind its flags. -/
theorem width?_afterFlags (rest : Bytes) : width? (d.afterFlags ++ rest) =
    some (d.width.map Width.count, d.afterWidth ++ rest) := by
  have hhead := d.head_afterWidth rest
  unfold afterFlags
  rw [List.append_assoc]
  cases hw : d.width with
  | none =>
    show width? (d.afterWidth ++ rest) = _
    rw [width?_of_ne fun c hc => (hhead c hc).2, numeral?_eq_none fun c hc => (hhead c hc).1.1]
    rfl
  | some w =>
    cases w with
    | numeral n h =>
      show width? (n.digits ++ _) = _
      rw [width?_of_ne (n.head_ne_star _), numeral?_append n fun c hc => (hhead c hc).1.1]
      rfl
    | star =>
      show (afterStar? (d.afterWidth ++ rest)).map _ = _
      rw [afterStar?_of_head fun c hc => (hhead c hc).1]
      rfl
    | starAt p =>
      show (afterStar? (p.text ++ _)).map _ = _
      rw [afterStar?_append]
      rfl

/-- The precision of a directive is read behind its width. -/
theorem precision?_afterWidth (rest : Bytes) : precision? (d.afterWidth ++ rest) =
    some (d.precision.map Precision.count, d.ending ++ rest) := by
  have hhead := d.head_ending rest
  unfold afterWidth
  rw [List.append_assoc]
  cases d.precision with
  | none =>
    show precision? (d.ending ++ rest) = _
    rw [precision?_of_ne fun c hc => (hhead c hc).2.2]
    rfl
  | some p =>
    cases p with
    | point =>
      show precision? (0x2e :: (d.ending ++ rest)) = _
      rw [precision?_point fun c hc => (hhead c hc).2.1,
        numeral?_eq_none fun c hc => (hhead c hc).1.1]
      rfl
    | numeral n =>
      show precision? (0x2e :: (n.digits ++ (d.ending ++ rest))) = _
      rw [precision?_point (n.head_ne_star _), numeral?_append n fun c hc => (hhead c hc).1.1]
      rfl
    | star =>
      show (afterStar? (d.ending ++ rest)).map _ = _
      rw [afterStar?_of_head fun c hc => (hhead c hc).1]
      rfl
    | starAt p =>
      show (afterStar? (p.text ++ _)).map _ = _
      rw [afterStar?_append]
      rfl

/-- The modifiers of a directive are read up to its conversion. -/
theorem modifiers_ending (rest : Bytes) : Format.modifiers none (d.ending ++ rest) =
    (d.modifiers.getLast?.map Modifier.source, d.conversion.byte :: rest) := by
  have hstop (m : Option Source) (c : Conversion) :
      Format.modifiers m (c.byte :: rest) = (m, c.byte :: rest) := by
    cases c <;> first | rfl | (rename_i upper; cases upper <;> rfl)
  unfold ending
  rw [List.append_assoc, modifiers_append, List.getLast?_map, Option.or_none]
  exact hstop _ _

/-- **A directive is read as it is written.** -/
theorem scan?_body (rest : Bytes) : scan? (d.body ++ rest) = some (d.directive, rest) := by
  unfold scan?
  rw [position?_body]
  dsimp only
  rw [flags_afterPosition]
  dsimp only
  rw [width?_afterFlags]
  dsimp only
  rw [precision?_afterWidth]
  dsimp only
  rw [modifiers_ending]
  dsimp only
  rw [ofByte?_byte]
  rfl

end Spelling

/-- Two percent signs are no directive. -/
theorem scan?_percent (s : Bytes) : scan? (0x25 :: s) = none := rfl

/-- What is read for a piece. -/
def Piece.item : Piece → Item
  | .literal c _ => .literal c
  | .percent => .percent
  | .directive d => .directive d.directive

/-- A piece that stands first in a format is read first. -/
theorem items_append (p : Piece) (rest : Bytes) : items (p.text ++ rest) = p.item :: items rest := by
  cases p with
  | literal c h =>
    show items (c :: rest) = _
    rw [items]
    · rfl
    · rintro - rfl
      exact fun _ => h rfl
    · rintro rfl
      exact h rfl
  | percent =>
    show items (0x25 :: 0x25 :: rest) = _
    rw [items]
    rfl
  | directive d =>
    show items (0x25 :: (d.body ++ rest)) = _
    rw [items]
    · split
      · rename_i h
        rw [d.scan?_body] at h
        cases h
        rfl
      · rename_i h
        rw [d.scan?_body] at h
        cases h
    · intro s h
      have hscan := d.scan?_body rest
      rw [h, scan?_percent] at hscan
      cases hscan

/-- A format that is written in pieces is read in the same pieces. -/
theorem items_flatMap (ps : List Piece) : items (ps.flatMap Piece.text) = ps.map Piece.item := by
  induction ps with
  | nil => rw [List.flatMap_nil, items, List.map_nil]
  | cons p rest ih => rw [List.flatMap_cons, items_append, ih, List.map_cons]

/-! ## Rendering -/

namespace Spelling

variable (d : Spelling) (args : Arguments) (next : Nat)

/-- A width takes the next argument where it is a star. -/
theorem value_width {w : Width} (h : d.width = some w) :
    w.count.value args next = (w.value args next, next + d.widthTakes) := by
  unfold widthTakes
  rw [h]
  cases w <;> rfl

/-- A precision takes the next argument where it is a star. -/
theorem value_precision {p : Precision} (h : d.precision = some p) :
    p.count.value args next = (p.value args next, next + d.precisionTakes) := by
  unfold precisionTakes
  rw [h]
  cases p <;> rfl

/-- The width comes before the precision, both as to what they take and as to what they set. -/
theorem layout_directive : d.directive.layout args next =
    (d.layoutAt args next, next + d.widthTakes + d.precisionTakes) := by
  unfold Directive.layout directive layoutAt flagsAt Flags.ofList
  cases hw : d.width with
  | none =>
    have htakes : d.widthTakes = 0 := by rw [widthTakes, hw]
    cases hp : d.precision with
    | none => simp [precisionTakes, htakes, hp]
    | some p => simp [Layout.setPrecision, Limits.text, htakes, d.value_precision args _ hp]
  | some w =>
    cases hp : d.precision with
    | none =>
      simp [Layout.setWidth, Limits.text, precisionTakes, d.value_width args next hw, hp]
    | some p =>
      simp [Layout.setWidth, Layout.setPrecision, Limits.text, d.value_width args next hw,
        d.value_precision args _ hp]

end Spelling

/-- A piece gives its output and takes its arguments, and nothing about it is malformed. -/
theorem render_item (p : Piece) (args : Arguments) (next : Nat) :
    ∃ notes, p.item.render renderVector args next = (p.output args next, notes, next + p.takes) ∧
      ∀ tail, .malformed tail ∉ notes := by
  cases p with
  | literal c h => exact ⟨[], rfl, nofun⟩
  | percent => exact ⟨[], rfl, nofun⟩
  | directive d =>
    refine ⟨if d.conversion == .string then [.stringRead (d.valueAt next)] else [], ?_, ?_⟩
    · unfold Piece.item Item.render
      dsimp only
      rw [d.layout_directive]
      cases hp : d.position with
      | none =>
        simp [Spelling.directive, Piece.output, Piece.takes, Spelling.source, Spelling.valueAt,
          Spelling.valueTakes, hp, Nat.add_assoc]
      | some p =>
        simp [Spelling.directive, Piece.output, Piece.takes, Spelling.source, Spelling.valueAt,
          Spelling.valueTakes, hp, Nat.add_assoc]
    · intro tail
      split <;> simp

/-- Stopping when the limit is reached does not change what is below the limit. -/
theorem renderFrom_spelled (args : Arguments) (ps : List Piece) (next written : Nat) :
    (renderFrom renderVector args (ps.map Piece.item) next written).1.take (1023 - written) =
        (outputs args next ps).take (1023 - written) ∧
      ∀ tail, .malformed tail ∉
        (renderFrom renderVector args (ps.map Piece.item) next written).2 := by
  induction ps generalizing next written with
  | nil => exact ⟨rfl, nofun⟩
  | cons p rest ih =>
    rw [List.map_cons, renderFrom]
    split
    · rename_i hfull
      have hzero : 1023 - written = 0 := Nat.sub_eq_zero_of_le hfull
      exact ⟨by rw [hzero]; rfl, nofun⟩
    · obtain ⟨notes, hitem, hnotes⟩ := render_item p args next
      rw [hitem]
      obtain ⟨htake, hmore⟩ := ih (next + p.takes) (written + (p.output args next).length)
      refine ⟨?_, fun tail hmem => ?_⟩
      · rw [outputs, List.take_append, List.take_append, Nat.sub_sub, htake]
      · rcases List.mem_append.mp hmem with hmem | hmem
        · exact hnotes tail hmem
        · exact hmore tail hmem

/-- A format string that is one directive. -/
theorem render_directive (d : Spelling) (args : Arguments) :
    (render (Piece.directive d).text args).1 = ((Piece.directive d).output args 0).take 1023 := by
  have htext : (Piece.directive d).text = [Piece.directive d].flatMap Piece.text := by simp
  have houtput : outputs args 0 [.directive d] = (Piece.directive d).output args 0 := by
    simp [outputs]
  unfold render renderWith
  rw [htext, items_flatMap, ← houtput]
  exact (renderFrom_spelled args [.directive d] 0 0).1

end QuakeVm.Format
