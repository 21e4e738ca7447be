import QuakeVm.Machine.Invoke
import QuakeVm.Proofs.Calls
import QuakeVm.Proofs.Directives
import QuakeVm.Proofs.Handles
import QuakeVm.Proofs.Numerals
import Mathlib.Data.List.TakeWhile

/-!
# Integers survive writing and reading

An integer is written under flags, a width and a precision, and read back from the text. Whatever the
layout, the text has the same shape: spaces, a sign, digits with zeros in front, and spaces
(`signed_spelled`, `hex_spelled`). Readers skip the spaces, take the sign and the digits, and work modulo
`2 ^ 32`, so that they give back the integer (`scanInt_signed`, `scanHex_hex`).

Rendering cuts its output at 1023 bytes. A width is never larger, and a precision below that leaves
room for the sign, so that the cut takes nothing away.
-/

namespace QuakeVm

namespace Format

open Number (Spells digitByte)

/-! ## Fields -/

namespace Layout

/-- A field is as wide as its layout asks, or as its contents need. -/
theorem length_field (l : Layout) (lead body : Bytes) (zeros : Bool) :
    (l.field lead body zeros).length = max (l.width.getD 0) (lead.length + body.length) := by
  unfold field
  dsimp only
  split
  · simp only [List.length_append, List.length_replicate]
    omega
  · split
    · simp only [List.length_append, List.length_replicate]
      omega
    · simp only [List.length_append, List.length_replicate]
      omega

/-- Wherever the padding goes, it adds spaces around the field or zeros to the front of the digits. -/
theorem field_digits (l : Layout) (lead : Bytes) (ds : List Nat) (upper zeros : Bool) :
    ∃ i j k, l.field lead (ds.map (digitByte upper)) zeros =
      List.replicate i 0x20 ++ (lead ++
        ((List.replicate j 0 ++ ds).map (digitByte upper) ++ List.replicate k 0x20)) := by
  unfold field
  dsimp only
  generalize l.width.getD 0 - (lead.length + (ds.map (digitByte upper)).length) = missing
  split
  · exact ⟨0, 0, missing, by simp⟩
  · split
    · exact ⟨0, missing, 0, by simp [Number.digitByte]⟩
    · exact ⟨missing, 0, 0, by simp⟩

/-- A precision adds zeros to the front of the digits, or takes the digit of zero away. -/
theorem stretch_spelled {b : Nat} (hb : 2 ≤ b) (l : Layout) (upper : Bool) (n : Nat) :
    ∃ ds, l.stretch (Number.numeral b upper n) (n == 0) = ds.map (digitByte upper) ∧
      Spells b n ds ∧ ds.length ≤ max (l.precision.getD 0) (Number.digits b n).length := by
  have hdigits := Spells.digits hb n
  unfold stretch
  split
  · exact ⟨Number.digits b n, rfl, hdigits, Nat.le_max_right _ _⟩
  · by_cases hn : n = 0
    · subst hn
      exact ⟨[], rfl, .nil b, Nat.zero_le _⟩
    · exact ⟨Number.digits b n, by simp [hn, Number.numeral], hdigits, Nat.le_max_right _ _⟩
  · rename_i p _ hp
    refine ⟨List.replicate (p - (Number.digits b n).length) 0 ++ Number.digits b n, ?_,
      hdigits.zeros (by omega) _, ?_⟩
    · simp [Number.padLeft, Number.numeral, Number.digitByte]
    · rw [hp, Option.getD_some, List.length_append, List.length_replicate]
      omega

/-! ## Signed integers -/

theorem length_sign_le (l : Layout) (negative : Bool) : (l.sign negative).length ≤ 1 := by
  unfold sign
  repeat' split
  all_goals simp

theorem signed_eq (l : Layout) (v : Int) : l.signed v =
    l.field (l.sign (v < 0)) (l.stretch (Number.decimal v.natAbs) (v.natAbs == 0))
      l.precision.isNone := by
  have hzero : (v == 0) = (v.natAbs == 0) := by simp [Int.natAbs_eq_zero]
  rw [signed, hzero]

/-- A signed field is a sign and digits between spaces. -/
theorem signed_spelled (l : Layout) (v : Int) : ∃ i k ds, Spells 10 v.natAbs ds ∧
    l.signed v = List.replicate i 0x20 ++
      (l.sign (v < 0) ++ (ds.map (digitByte false) ++ List.replicate k 0x20)) := by
  obtain ⟨ds, hstretch, hspells, -⟩ :=
    l.stretch_spelled (b := 10) (by decide) false v.natAbs
  obtain ⟨i, j, k, hfield⟩ := l.field_digits (l.sign (v < 0)) ds false l.precision.isNone
  refine ⟨i, k, List.replicate j 0 ++ ds, hspells.zeros (by decide) j, ?_⟩
  rw [signed_eq, Number.decimal, hstretch, hfield]

/-- **A signed integer is read back** modulo `2 ^ 32`, however it is laid out. -/
theorem scanInt_signed (l : Layout) (v : Int) : Number.scanInt (l.signed v) = Int32.ofInt v := by
  obtain ⟨i, k, ds, hspells, htext⟩ := l.signed_spelled v
  have hspaces : ∀ c ∈ (List.replicate k (0x20 : UInt8)).head?, Bytes.isDigit c = false :=
    fun c hc => by rw [Number.head?_spaces hc]; rfl
  rw [htext]
  by_cases hneg : v < 0
  · have hsign : l.sign (v < 0) = [0x2d] := by simp [sign, hneg]
    rw [hsign, List.singleton_append, Number.scanInt_minus, Number.value_spelled hspells _ hspaces,
      Int32.neg_ofNat]
    congr 1
    omega
  · have hvalue : Int32.ofNat v.natAbs = Int32.ofInt v := by
      rw [← Int32.ofInt_eq_ofNat, Int.natAbs_of_nonneg (Int.not_lt.mp hneg)]
    rw [← hvalue]
    by_cases hplus : l.flags.plus = true
    · have hsign : l.sign (v < 0) = [0x2b] := by simp [sign, hneg, hplus]
      rw [hsign, List.singleton_append, Number.scanInt_plus, Number.value_spelled hspells _ hspaces]
    · by_cases hspace : l.flags.space = true
      · -- The space in the place of a sign is one more to skip.
        have hsign : l.sign (v < 0) = List.replicate 1 0x20 := by simp [sign, hneg, hplus, hspace]
        rw [hsign, ← List.append_assoc, List.replicate_append_replicate,
          Number.scanInt_spelled hspells]
      · have hsign : l.sign (v < 0) = [] := by simp [sign, hneg, hplus, hspace]
        rw [hsign, List.nil_append, Number.scanInt_spelled hspells]

/-! ## Hexadecimal integers -/

theorem hex_eq (l : Layout) (halt : l.flags.alt = false) (upper : Bool) (n : Nat) : l.hex upper n =
    l.field [] (l.stretch (Number.numeral 16 upper n) (n == 0)) l.precision.isNone := by
  simp [hex, halt]

/-- A hexadecimal field without its mark is digits between spaces. -/
theorem hex_spelled (l : Layout) (halt : l.flags.alt = false) (upper : Bool) (n : Nat) :
    ∃ i k ds, Spells 16 n ds ∧
      l.hex upper n = List.replicate i 0x20 ++ (ds.map (digitByte upper) ++ List.replicate k 0x20) := by
  obtain ⟨ds, hstretch, hspells, -⟩ := l.stretch_spelled (b := 16) (by decide) upper n
  obtain ⟨i, j, k, hfield⟩ := l.field_digits [] ds upper l.precision.isNone
  refine ⟨i, k, List.replicate j 0 ++ ds, hspells.zeros (by decide) j, ?_⟩
  rw [l.hex_eq halt, hstretch, hfield, List.nil_append]

/-- **A hexadecimal integer is read back** modulo `2 ^ 32`, however it is laid out without `0x`. -/
theorem scanHex_hex (l : Layout) (halt : l.flags.alt = false) (upper : Bool) (n : Nat) :
    Number.scanHex (l.hex upper n) = (UInt32.ofNat n).toInt32 := by
  obtain ⟨i, k, ds, hspells, htext⟩ := l.hex_spelled halt upper n
  rw [htext, Number.scanHex_spelled hspells]

/-! ## Room for integers -/

/-- The width is within the limit of rendering, and the precision leaves room for a sign. -/
structure Fits (l : Layout) : Prop where
  width : l.width.getD 0 ≤ 1023
  precision : l.precision.getD 0 < 1023

namespace Fits

variable {l : Layout} (hl : l.Fits)

include hl

/-- A number of ten digits or fewer is not cut in a layout that fits. -/
theorem length_field_le {b n : Nat} (hb : 2 ≤ b) (hn : n < b ^ 10) {lead : Bytes}
    (hlead : lead.length ≤ 1) (upper zeros : Bool) :
    (l.field lead (l.stretch (Number.numeral b upper n) (n == 0)) zeros).length ≤ 1023 := by
  obtain ⟨ds, hstretch, -, hlength⟩ := l.stretch_spelled hb upper n
  have hdigits := Number.length_digits_le hb (by decide) hn
  have hwidth := hl.width
  have hprecision := hl.precision
  rw [hstretch, length_field, List.length_map]
  omega

theorem length_signed_le (v : Int32) : (l.signed v.toInt).length ≤ 1023 := by
  have hlow := v.le_toInt
  have hhigh := v.toInt_lt
  rw [signed_eq]
  exact hl.length_field_le (by decide) (by omega) (l.length_sign_le _) false _

theorem length_hex_le (halt : l.flags.alt = false) (upper : Bool) {n : Nat}
    (hn : n < 0x100000000) : (l.hex upper n).length ≤ 1023 := by
  have hlead : ([] : Bytes).length ≤ 1 := Nat.zero_le 1
  rw [l.hex_eq halt]
  exact hl.length_field_le (by decide) (by omega) hlead upper _

end Fits

/-- The plain layout fits. -/
theorem fits_default : ({} : Layout).Fits := ⟨by decide, by decide⟩

theorem signed_default (v : Int) : ({} : Layout).signed v = Number.signedDecimal v := by
  unfold Number.signedDecimal
  split <;> simp [signed, field, sign, stretch, *]

theorem hex_default (n : Nat) : ({} : Layout).hex false n = Number.numeral 16 false n := by
  simp [hex, field, stretch]

end Layout

/-! ## Rendering integers -/

/-- A word as an integer and as an unsigned number has the same bits. -/
theorem word_toInt (v : Int32) : word v.toInt = v.toUInt32.toNat := by
  have h := congrArg BitVec.toNat (BitVec.ofInt_toInt (x := v.toBitVec))
  rw [BitVec.toNat_ofInt] at h
  exact h

theorem toInt32_word (v : Int32) : (UInt32.ofNat (word v.toInt)).toInt32 = v := by
  rw [word_toInt, UInt32.ofNat_toNat, Int32.toInt32_toUInt32]

namespace Spelling

variable {d : Spelling} {args : Arguments}

theorem fits_layoutAt {next : Nat} (h : ∀ p ∈ (d.layoutAt args next).precision, p < 1023) :
    (d.layoutAt args next).Fits where
  width := by
    unfold layoutAt
    cases d.width with
    | none => exact Nat.zero_le _
    | some w => exact Nat.min_le_right _ _
  precision := by
    cases hp : (d.layoutAt args next).precision with
    | none => exact Nat.zero_lt_succ _
    | some p => exact h p hp

/-- A directive that writes a signed integer writes what is read back. -/
theorem scanInt_render (hconversion : d.conversion = .decimal) (hsource : d.source = .int)
    (hprecision : ∀ p ∈ (d.layoutAt args 0).precision, p < 1023) :
    Number.scanInt (render (Piece.directive d).text args).1 = args.int (d.valueAt 0) := by
  have houtput : (Piece.directive d).output args 0 =
      (d.layoutAt args 0).signed (args.int (d.valueAt 0)).toInt := by
    rw [Piece.output, hconversion, hsource]
    rfl
  rw [render_directive, houtput,
    List.take_of_length_le ((fits_layoutAt hprecision).length_signed_le _), Layout.scanInt_signed,
    Int32.ofInt_toInt]

/-- A directive that writes a hexadecimal integer without `0x` writes what is read back. -/
theorem scanHex_render {upper : Bool} (hconversion : d.conversion = .hex upper)
    (hsource : d.source = .int) (halt : Flag.alt ∉ d.flags)
    (hprecision : ∀ p ∈ (d.layoutAt args 0).precision, p < 1023) :
    Number.scanHex (render (Piece.directive d).text args).1 = args.int (d.valueAt 0) := by
  have houtput : (Piece.directive d).output args 0 =
      (d.layoutAt args 0).hex upper (word (args.int (d.valueAt 0)).toInt) := by
    rw [Piece.output, hconversion, hsource]
    rfl
  have hflag : (d.layoutAt args 0).flags.alt = false := decide_eq_false halt
  have hlt : word (args.int (d.valueAt 0)).toInt < 0x100000000 := by
    rw [word_toInt]
    exact UInt32.toNat_lt _
  rw [render_directive, houtput,
    List.take_of_length_le ((fits_layoutAt hprecision).length_hex_le hflag upper hlt),
    Layout.scanHex_hex _ hflag, toInt32_word]

/-- A directive with flags, a width and a precision as they are written, and `l` before its
conversion. Of the precision the numeral may be left out. -/
def long (fs : List Flag) (width : Option {n : Numeral // n.digits.head? ≠ some 0x30})
    (precision : Option (Option Numeral)) (conversion : Conversion) : Spelling where
  flags := fs
  width := width.map fun n => .numeral n.1 n.2
  precision := precision.map fun n? => n?.elim .point .numeral
  modifiers := [.long]
  conversion

section Long

variable {fs : List Flag} {width : Option {n : Numeral // n.digits.head? ≠ some 0x30}}
  {precision : Option (Option Numeral)} {conversion : Conversion}

theorem source_long : (long fs width precision conversion).source = .int := rfl

theorem valueAt_long : (long fs width precision conversion).valueAt 0 = 0 := by
  have hwidth : (long fs width precision conversion).widthTakes = 0 := by
    cases width <;> rfl
  have hprecision : (long fs width precision conversion).precisionTakes = 0 := by
    rcases precision with _ | _ | n <;> rfl
  rw [valueAt, hwidth, hprecision]
  rfl

theorem precision_long (h : ∀ n, precision = some (some n) → n.value < 1023) (next : Nat) :
    ∀ p ∈ ((long fs width precision conversion).layoutAt args next).precision, p < 1023 := by
  intro p hp
  rcases precision with _ | _ | n
  · cases hp
  · have hzero : p = 0 := by simpa [layoutAt, long, Precision.value, eq_comm] using hp
    omega
  · have hpos : ¬(n.value : Int) < 0 := by omega
    have hmin : p = min n.value 1023 := by
      simpa [layoutAt, long, Precision.value, hpos, eq_comm] using hp
    have hn := h n rfl
    omega

end Long

end Spelling

end Format

/-! ## Builtins that write and read integers -/

open QuakeVm.Action

namespace StringTable

/-- A text that is short and has no null is stored as it is. -/
theorem fit_eq_self {s : Bytes} (hnul : 0 ∉ s) (hlength : s.length ≤ 1023) : fit s = s := by
  have huntil : Bytes.untilNul s = s :=
    List.takeWhile_eq_self_iff.mpr fun c hc => bne_iff_ne.mpr (ne_of_mem_of_not_mem hc hnul)
  rw [fit, huntil]
  exact List.take_of_length_le hlength

/-- A temporary string is found under its handle, also when the handle has been kept in a register. -/
theorem get_temp {t : StringTable} (hc : t.Consistent) (s : Bytes) :
    (t.temp s).2.get (Int32.ofInt (t.temp s).1).toInt = fit s := by
  have hlt := hc.nextTemp_lt
  have hhandle : (Int32.ofInt (handle t.nextTemp)).toInt = handle t.nextTemp := by
    apply Int32.toInt_ofInt_of_le
    · simp only [handle, Limits.tempStrings] at hlt ⊢
      omega
    · simp only [handle]
      omega
  show (t.temp s).2.get (Int32.ofInt (handle t.nextTemp)).toInt = _
  rw [hhandle, get_handle (e := .temp (fit s)) (by rw [known_temp hc, if_pos rfl])]
  rfl

end StringTable

namespace Action

theorem text_apply (h : Int) (a : Activation) :
    ∃ w, text h a = .ok (a.machine.strings.get h) { a with world := w } := by
  have hget : (get : Action Activation) a = .ok a a := rfl
  rw [text, bind_apply, hget]
  cases hcomplaint : a.machine.strings.complaint? h with
  | none =>
    simp only [hcomplaint]
    exact ⟨_, rfl⟩
  | some complaint =>
    simp only [hcomplaint]
    exact ⟨_, rfl⟩

theorem returnWord_apply (w : Int32) (a : Activation) : ∃ b, returnWord w a = .ok () b ∧
    b.machine.registers = a.machine.registers.set returnRegister w :=
  ⟨_, rfl, rfl⟩

/-- A text is returned as the handle of a new temporary string. -/
theorem returnText_apply (s : Bytes) (a : Activation) :
    ∃ b, returnText s a = .ok () b ∧ b.machine.strings = (a.machine.strings.temp s).2 ∧
      b.machine.registers =
        a.machine.registers.set returnRegister (Int32.ofInt (a.machine.strings.temp s).1) := by
  unfold returnText temporary
  cases hcut : StringTable.cut? s with
  | none => exact ⟨_, rfl, rfl, rfl⟩
  | some note => exact ⟨_, rfl, rfl, rfl⟩

end Action

/-- The activation in which a builtin finds one argument. -/
def Activation.passing (a : Activation) (w : Int32) : Activation :=
  a.mapMachine fun m =>
    { m with registers := m.registers.clearParameters.set (parameter 0) w, argumentCount := 1 }

namespace Activation

variable {a : Activation} (w : Int32)

theorem strings_passing : (a.passing w).machine.strings = a.machine.strings := by
  simp only [passing, mapMachine]

theorem size_passing : (a.passing w).machine.registers.size = a.machine.registers.size := by
  show (a.machine.registers.clearParameters.set (parameter 0) w).size = _
  rw [Registers.size_set, Registers.clearParameters, Registers.size_setWindow]

/-- The argument that is passed is the first parameter. -/
theorem get_passing (hsize : reservedRegisters ≤ a.machine.registers.size) :
    (a.passing w).machine.registers.get (parameter 0) = w := by
  refine Registers.get_set_self _ w ?_
  rw [Registers.clearParameters, Registers.size_setWindow]
  exact Nat.lt_of_lt_of_le (by decide) hsize

end Activation

theorem invoke_word (p : Primitive) (w : Int32) (a : Activation) :
    invoke p [.word w] a = Builtins.run p (a.passing w) := by
  unfold invoke Activation.passing
  generalize Builtins.run p = x
  generalize Registers.clearParameters = clear
  rfl

section Calls

variable {p : Primitive} {a : Activation} (hsize : reservedRegisters ≤ a.machine.registers.size)

include hsize

/-- A builtin that makes a text of an integer returns the handle of a temporary string. -/
theorem invoke_write {f : Int32 → Bytes}
    (hp : Builtins.run p = wordArgument 0 >>= fun w => returnText (f w)) (v : Int32) :
    ∃ b, invoke p [.word v] a = .ok () b ∧
      b.machine.strings = (a.machine.strings.temp (f v)).2 ∧
      b.machine.registers.get returnRegister = Int32.ofInt (a.machine.strings.temp (f v)).1 ∧
      reservedRegisters ≤ b.machine.registers.size := by
  obtain ⟨b, hb, hstrings, hregisters⟩ := returnText_apply (f v) (a.passing v)
  rw [Activation.strings_passing] at hstrings hregisters
  refine ⟨b, ?_, hstrings, ?_, ?_⟩
  · rw [invoke_word, hp, bind_apply, wordArgument, word_apply, Activation.get_passing v hsize]
    exact hb
  · rw [hregisters, Registers.get_set_self]
    rw [Activation.size_passing]
    exact Nat.lt_of_lt_of_le (by decide) hsize
  · rw [hregisters, Registers.size_set, Activation.size_passing]
    exact hsize

/-- A builtin that makes an integer of a text returns the integer. -/
theorem invoke_read {g : Bytes → Int32}
    (hp : Builtins.run p = textArgument 0 >>= fun s => returnWord (g s)) (h : Int32) :
    ∃ b, invoke p [.word h] a = .ok () b ∧
      b.machine.registers.get returnRegister = g (a.machine.strings.get h.toInt) := by
  obtain ⟨w, hw⟩ := text_apply h.toInt (a.passing h)
  rw [Activation.strings_passing] at hw
  have hargument : textArgument 0 (a.passing h) =
      .ok (a.machine.strings.get h.toInt) { a.passing h with world := w } := by
    rw [textArgument, bind_apply, wordArgument, word_apply, Activation.get_passing h hsize]
    exact hw
  obtain ⟨b, hb, hregisters⟩ :=
    returnWord_apply (g (a.machine.strings.get h.toInt)) { a.passing h with world := w }
  refine ⟨b, ?_, ?_⟩
  · rw [invoke_word, hp, bind_apply, hargument]
    exact hb
  · rw [hregisters, Registers.get_set_self]
    rw [Activation.size_passing]
    exact Nat.lt_of_lt_of_le (by decide) hsize

end Calls

/-- Call a builtin with an integer, pass what it returns to another one, and see what that returns. -/
def callBoth (write read : Primitive) (v : Int32) : Action Int32 := do
  invoke write [.word v]
  invoke read [.word (← word returnRegister)]
  word returnRegister

/-- The text that is handed over is what a temporary string holds of it. -/
theorem callBoth_apply {write read : Primitive} {f : Int32 → Bytes} {g : Bytes → Int32}
    (hwrite : Builtins.run write = wordArgument 0 >>= fun w => returnText (f w))
    (hread : Builtins.run read = textArgument 0 >>= fun s => returnWord (g s)) (v : Int32)
    {a : Activation} (hc : a.machine.strings.Consistent)
    (hsize : reservedRegisters ≤ a.machine.registers.size) :
    ∃ b, callBoth write read v a = .ok (g (StringTable.fit (f v))) b := by
  obtain ⟨b, hb, hstrings, hhandle, hsize'⟩ := invoke_write hsize hwrite v
  obtain ⟨c, hcall, hresult⟩ := invoke_read hsize' hread (b.machine.registers.get returnRegister)
  refine ⟨c, ?_⟩
  rw [hstrings, hhandle, StringTable.get_temp hc] at hresult
  rw [callBoth, bind_apply, hb]
  dsimp only
  rw [bind_apply, word_apply]
  dsimp only
  rw [bind_apply, hcall, ← hresult]
  rfl

/-! ## Round trips -/

namespace Number

theorem zero_notMem_numeral {b : Nat} (hb : 2 ≤ b) (hb' : b ≤ 16) (upper : Bool) (n : Nat) :
    0 ∉ numeral b upper n := by
  have hne : ∀ upper, ∀ d < 16, digitByte upper d ≠ 0 := by decide
  rw [numeral, List.mem_map]
  rintro ⟨d, hd, hzero⟩
  exact hne upper d (Nat.lt_of_lt_of_le ((Spells.digits hb n).lt d hd) hb') hzero

theorem fit_signedDecimal (v : Int32) :
    StringTable.fit (signedDecimal v.toInt) = signedDecimal v.toInt := by
  have hdigits := zero_notMem_numeral (b := 10) (by decide) (by decide) false v.toInt.natAbs
  refine StringTable.fit_eq_self ?_ ?_
  · unfold signedDecimal
    split
    · exact List.not_mem_cons_of_ne_of_not_mem (by decide) hdigits
    · exact hdigits
  · rw [← Format.Layout.signed_default]
    exact Format.Layout.fits_default.length_signed_le v

theorem fit_numeral (v : Int32) :
    StringTable.fit (numeral 16 false v.toUInt32.toNat) = numeral 16 false v.toUInt32.toNat := by
  refine StringTable.fit_eq_self (zero_notMem_numeral (by decide) (by decide) false _) ?_
  rw [← Format.Layout.hex_default]
  exact Format.Layout.fits_default.length_hex_le rfl false (UInt32.toNat_lt _)

/-- A number is read back from its decimal text. -/
theorem scanInt_signedDecimal (v : Int32) : scanInt (signedDecimal v.toInt) = v := by
  rw [← Format.Layout.signed_default, Format.Layout.scanInt_signed, Int32.ofInt_toInt]

/-- A word is read back from its hexadecimal text. -/
theorem scanHex_numeral (v : Int32) : scanHex (numeral 16 false v.toUInt32.toNat) = v := by
  rw [← Format.Layout.hex_default, Format.Layout.scanHex_hex _ rfl, UInt32.ofNat_toNat,
    Int32.toInt32_toUInt32]

end Number

open Format in
/-- **Integers survive writing and reading.** A word is written by a directive with any flags, any
width, and a precision that is left out or below 1023. From the signed decimal form it is read back,
and without `#` also from the hexadecimal form of either case. So it is if builtins write it and read
it: whatever machine they are called on, as long as its strings are in order and it has the registers
that calls use, a word that has been made a string is read back from that string. -/
theorem integers_survive (fs : List Flag)
    (width : Option {n : Numeral // n.digits.head? ≠ some 0x30}) (precision : Option (Option Numeral))
    (hprecision : ∀ n, precision = some (some n) → n.value < 1023) (v : Int32) :
    Number.scanInt (render (Piece.directive (.long fs width precision .decimal)).text
        (.ofValues [.int v])).1 = v ∧
      (Flag.alt ∉ fs → ∀ upper, Number.scanHex
        (render (Piece.directive (.long fs width precision (.hex upper))).text
          (.ofValues [.int v])).1 = v) ∧
      ∀ a : Activation, a.machine.strings.Consistent →
        reservedRegisters ≤ a.machine.registers.size →
        (∃ b, callBoth .itos .stoi v a = .ok v b) ∧ ∃ b, callBoth .htos .stoh v a = .ok v b := by
  refine ⟨?_, fun halt upper => ?_, fun a hc hsize => ⟨?_, ?_⟩⟩
  · rw [Spelling.scanInt_render rfl Spelling.source_long (Spelling.precision_long hprecision 0),
      Spelling.valueAt_long]
    rfl
  · rw [Spelling.scanHex_render rfl Spelling.source_long halt
      (Spelling.precision_long hprecision 0), Spelling.valueAt_long]
    rfl
  · have h := @callBoth_apply .itos .stoi _ _ rfl rfl v a hc hsize
    rwa [Number.fit_signedDecimal, Number.scanInt_signedDecimal] at h
  · have h := @callBoth_apply .htos .stoh _ _ rfl rfl v a hc hsize
    rwa [Number.fit_numeral, Number.scanHex_numeral] at h

/-- A machine with nothing but a string table, in a world without files. -/
def plainActivation : Activation := ⟨StringTable.machineOf (.ofConstants []), .new "game" .empty⟩

open Format in
/-- The least word, with a space in the place of a plus sign, zeros as padding, the largest width and
the largest precision that leaves room for the sign. -/
theorem integers_survive_least :
    let width : Numeral := ⟨[0x31, 0x30, 0x32, 0x33], by decide, List.all_eq_true.mp rfl⟩
    let precision : Numeral := ⟨[0x31, 0x30, 0x32, 0x32], by decide, List.all_eq_true.mp rfl⟩
    width.digits.head? ≠ some 0x30 ∧ precision.value < 1023 ∧ Flag.alt ∉ [Flag.space, Flag.zero] ∧
      plainActivation.machine.strings.Consistent ∧
      reservedRegisters ≤ plainActivation.machine.registers.size ∧
      Number.scanInt (render (Bytes.ofText "% 01023.1022ld") (.ofValues [.int (-2147483648)])).1 =
        -2147483648 ∧
      Number.scanHex (render (Bytes.ofText "% 01023.1022lX") (.ofValues [.int (-2147483648)])).1 =
        -2147483648 ∧
      (∃ b, callBoth .itos .stoi (-2147483648) plainActivation = .ok (-2147483648) b) ∧
      ∃ b, callBoth .htos .stoh (-2147483648) plainActivation = .ok (-2147483648) b := by
  intro width precision
  have hwidth : width.digits.head? ≠ some 0x30 := by decide
  have hprecision : precision.value < 1023 := by decide
  have halt : Flag.alt ∉ [Flag.space, Flag.zero] := by decide
  have hc : plainActivation.machine.strings.Consistent := StringTable.consistent_ofConstants []
  have hsize : reservedRegisters ≤ plainActivation.machine.registers.size := by decide
  obtain ⟨hint, hhex, hcalls⟩ := integers_survive [.space, .zero] (some ⟨width, hwidth⟩)
    (some (some precision)) (by rintro n h; cases h; exact hprecision) (-2147483648)
  obtain ⟨hstoi, hstoh⟩ := hcalls plainActivation hc hsize
  exact ⟨hwidth, hprecision, halt, hc, hsize, hint, hhex halt true, hstoi, hstoh⟩

end QuakeVm
