import QuakeVm.Text.Checksum
import Mathlib.Data.FinEnum
import Mathlib.Data.Fintype.EquivFin
import Mathlib.Data.LawfulXor.Basic

/-!
# What the checksum detects

A shift is linear in exclusive or, and it loses nothing: the polynomial has a lowest bit, so the bit
that falls out on the left is seen again on the right. Hence any data permutes the states of the
checksum, and two texts with the same end have the same checksum only if they had it before that end.

Two bytes are as wide as the state. Taking them in one by one is the same as taking in one word and
shifting sixteen times (`update_update`), so no two pairs of bytes lead from one state to the same one.
-/

namespace QuakeVm.Checksum

/-! ## One shift -/

/-- A shift on bit vectors. -/
def shiftBits (x : BitVec 16) : BitVec 16 := if x.msb then (x <<< 1) ^^^ 0x1021#16 else x <<< 1

theorem high_bit (crc : UInt16) : (crc &&& 0x8000 != 0) = crc.toBitVec.msb := by
  have hmask : (crc &&& 0x8000).toBitVec = if crc.toBitVec.msb then 0x8000#16 else 0#16 := by
    rw [UInt16.toBitVec_and]
    exact BitVec.and_twoPow _ 15
  cases hmsb : crc.toBitVec.msb with
  | false =>
    have hzero : crc &&& 0x8000 = 0 := UInt16.toBitVec_inj.mp (by rw [hmask, hmsb]; rfl)
    rw [hzero]
    rfl
  | true =>
    have hone : crc &&& 0x8000 = 0x8000 := UInt16.toBitVec_inj.mp (by rw [hmask, hmsb]; rfl)
    rw [hone]
    rfl

theorem toBitVec_shift (crc : UInt16) : (shift crc).toBitVec = shiftBits crc.toBitVec := by
  unfold shift shiftBits
  rw [high_bit]
  split <;> rfl

theorem shiftBits_xor (x y : BitVec 16) : shiftBits (x ^^^ y) = shiftBits x ^^^ shiftBits y := by
  unfold shiftBits
  rw [BitVec.msb_xor, BitVec.shiftLeft_xor_distrib]
  cases x.msb with
  | false =>
    cases y.msb with
    | false => rfl
    | true => exact BitVec.xor_assoc _ _ _
  | true =>
    cases y.msb with
    | false =>
      change (x <<< 1 ^^^ y <<< 1) ^^^ 0x1021#16 = (x <<< 1 ^^^ 0x1021#16) ^^^ y <<< 1
      rw [BitVec.xor_assoc, BitVec.xor_comm (y <<< 1), BitVec.xor_assoc]
    | true =>
      -- The polynomial comes in twice.
      change x <<< 1 ^^^ y <<< 1 = (x <<< 1 ^^^ 0x1021#16) ^^^ (y <<< 1 ^^^ 0x1021#16)
      rw [BitVec.xor_assoc, BitVec.xor_comm (y <<< 1), xor_cancel_left]

theorem shift_xor (x y : UInt16) : shift (x ^^^ y) = shift x ^^^ shift y := by
  apply UInt16.toBitVec_inj.mp
  rw [UInt16.toBitVec_xor, toBitVec_shift, toBitVec_shift, toBitVec_shift, UInt16.toBitVec_xor,
    shiftBits_xor]

/-- The bit that falls out is seen again in the lowest place. -/
theorem getLsbD_zero_shiftBits (x : BitVec 16) : (shiftBits x).getLsbD 0 = x.msb := by
  unfold shiftBits
  cases x.msb <;> simp

theorem shiftBits_injective : Function.Injective shiftBits := by
  intro x y h
  have hmsb : x.msb = y.msb := by
    rw [← getLsbD_zero_shiftBits x, h, getLsbD_zero_shiftBits]
  have hshift : x <<< 1 = y <<< 1 := by
    unfold shiftBits at h
    rw [hmsb] at h
    split at h
    · rw [← xor_cancel_right (x <<< 1) 0x1021#16, h, xor_cancel_right]
    · exact h
  apply BitVec.eq_of_getLsbD_eq
  intro i hi
  rcases Nat.lt_or_ge i 15 with hlow | hhigh
  · have hbit (z : BitVec 16) : (z <<< 1).getLsbD (i + 1) = z.getLsbD i := by
      rw [BitVec.getLsbD_shiftLeft, decide_eq_true (by omega), decide_eq_false (by omega)]
      rfl
    rw [← hbit, hshift, hbit]
  · obtain rfl : i = 15 := by omega
    exact hmsb

theorem shift_injective : Function.Injective shift := by
  intro x y h
  apply UInt16.toBitVec_inj.mp
  apply shiftBits_injective
  rw [← toBitVec_shift, h, toBitVec_shift]

/-! ## Many shifts -/

theorem shifts_eq_iterate (n : Nat) (crc : UInt16) : shifts n crc = shift^[n] crc := by
  induction n generalizing crc with
  | zero => rfl
  | succ n ih => exact ih (shift crc)

theorem shifts_injective (n : Nat) : Function.Injective (shifts n) := by
  rw [funext (shifts_eq_iterate n)]
  exact shift_injective.iterate n

theorem shifts_xor (n : Nat) (x y : UInt16) : shifts n (x ^^^ y) = shifts n x ^^^ shifts n y := by
  induction n generalizing x y with
  | zero => rfl
  | succ n ih =>
    change shifts n (shift (x ^^^ y)) = _
    rw [shift_xor, ih]
    rfl

theorem shifts_shifts (m n : Nat) (crc : UInt16) : shifts m (shifts n crc) = shifts (m + n) crc := by
  rw [shifts_eq_iterate, shifts_eq_iterate, shifts_eq_iterate, Function.iterate_add_apply]

/-- While only zeros fall out, shifts do no more than to shift. -/
theorem iterate_shiftBits {x : BitVec 16} {k : Nat}
    (h : ∀ i, 16 - k ≤ i → x.getLsbD i = false) : shiftBits^[k] x = x <<< k := by
  induction k with
  | zero => simp
  | succ k ih =>
    have hmsb : (x <<< k).msb = false := by
      rw [BitVec.msb_eq_getLsbD_last, BitVec.getLsbD_shiftLeft, h (15 - k) (by omega)]
      simp
    rw [Function.iterate_succ_apply', ih fun i hi => h i (by omega), shiftBits, hmsb,
      BitVec.shiftLeft_add]
    rfl

theorem toBitVec_shifts (n : Nat) (crc : UInt16) :
    (shifts n crc).toBitVec = shiftBits^[n] crc.toBitVec := by
  rw [shifts_eq_iterate]
  exact Function.Semiconj.iterate_right toBitVec_shift n crc

/-- Nothing falls out of a byte in eight shifts. -/
theorem shifts_byte (c : UInt8) : shifts 8 c.toUInt16 = c.toUInt16 <<< 8 := by
  apply UInt16.toBitVec_inj.mp
  rw [toBitVec_shifts, iterate_shiftBits]
  · rfl
  · intro i hi
    rw [UInt8.toBitVec_toUInt16, BitVec.getLsbD_setWidth, BitVec.getLsbD_of_ge _ _ hi, Bool.and_false]

/-! ## Bytes -/

/-- Two bytes as one word, the first one on the left. -/
def word (a b : UInt8) : UInt16 := (a.toUInt16 <<< 8) ^^^ b.toUInt16

theorem getLsbD_word (a b : UInt8) (i : Nat) : (word a b).toBitVec.getLsbD i =
    (((a.toBitVec.setWidth 16) <<< 8).getLsbD i ^^ (b.toBitVec.setWidth 16).getLsbD i) :=
  BitVec.getLsbD_xor

/-- The second byte is on the right. -/
theorem getLsbD_word_of_lt (a b : UInt8) {i : Nat} (hi : i < 8) :
    (word a b).toBitVec.getLsbD i = b.toBitVec.getLsbD i := by
  have hwide : i < 16 := by omega
  rw [getLsbD_word, BitVec.getLsbD_shiftLeft, BitVec.getLsbD_setWidth, BitVec.getLsbD_setWidth]
  simp [hi, hwide]

/-- The first byte is on the left. -/
theorem getLsbD_word_add (a b : UInt8) {i : Nat} (hi : i < 8) :
    (word a b).toBitVec.getLsbD (i + 8) = a.toBitVec.getLsbD i := by
  have hwide : i + 8 < 16 := by omega
  have hwide' : i < 16 := by omega
  rw [getLsbD_word, BitVec.getLsbD_shiftLeft, BitVec.getLsbD_setWidth, BitVec.getLsbD_setWidth,
    BitVec.getLsbD_of_ge b.toBitVec (i + 8) (by omega), Nat.add_sub_cancel]
  simp [hwide, hwide']

theorem word_inj {a b a' b' : UInt8} (h : word a b = word a' b') : a = a' ∧ b = b' := by
  constructor
  · apply UInt8.toBitVec_inj.mp
    apply BitVec.eq_of_getLsbD_eq
    intro i hi
    rw [← getLsbD_word_add a b hi, h, getLsbD_word_add a' b' hi]
  · apply UInt8.toBitVec_inj.mp
    apply BitVec.eq_of_getLsbD_eq
    intro i hi
    rw [← getLsbD_word_of_lt a b hi, h, getLsbD_word_of_lt a' b' hi]

theorem update_update (crc : UInt16) (a b : UInt8) :
    update (update crc a) b = shifts 16 (crc ^^^ word a b) := by
  unfold update word
  rw [← shifts_byte b, ← shifts_xor, shifts_shifts, UInt16.xor_assoc]

theorem update_injective (c : UInt8) : Function.Injective fun crc => update crc c := by
  intro x y h
  have hxor : x ^^^ (c.toUInt16 <<< 8) = y ^^^ (c.toUInt16 <<< 8) := shifts_injective 8 h
  rw [← xor_cancel_right x, hxor, xor_cancel_right]

theorem foldl_update_injective (data : Bytes) :
    Function.Injective fun crc => data.foldl update crc := by
  induction data with
  | nil => exact fun _ _ h => h
  | cons c data ih => exact ih.comp (update_injective c)

theorem update_update_injective (crc : UInt16) :
    Function.Injective fun w : UInt8 × UInt8 => update (update crc w.1) w.2 := by
  rintro ⟨a, b⟩ ⟨a', b'⟩ h
  dsimp only at h
  rw [update_update, update_update] at h
  have hxor : crc ^^^ word a b = crc ^^^ word a' b' := shifts_injective 16 h
  have hword : word a b = word a' b' := by
    rw [← xor_cancel_left crc (word a b), hxor, xor_cancel_left]
  obtain ⟨rfl, rfl⟩ := word_inj hword
  rfl

/-! ## Texts -/

/-- Texts that differ at most in two adjacent bytes, the first of them at `k`. -/
def AgreeAround (k : Nat) (s t : Bytes) : Prop := ∀ i, i ≠ k → i ≠ k + 1 → s[i]? = t[i]?

/-- One or two bytes are known by the state that they lead to. -/
theorem eq_of_foldl_update_eq {crc : UInt16} {w w' : Bytes} (hlength : w.length = w'.length)
    (hshort : w.length ≤ 2) (h : w.foldl update crc = w'.foldl update crc) : w = w' := by
  match w, w' with
  | [], [] => rfl
  | [a], [a'] =>
    -- Any second byte makes a pair of it.
    have hpair : (a, (0 : UInt8)) = (a', 0) :=
      update_update_injective crc (congrArg (update · 0) h)
    rw [(Prod.mk.inj hpair).1]
  | [a, b], [a', b'] =>
    have hpair : (a, b) = (a', b') := update_update_injective crc h
    rw [(Prod.mk.inj hpair).1, (Prod.mk.inj hpair).2]

/-- A text in three parts: what is before a window of two bytes, the window, and what is behind it. -/
theorem eq_append_window (k : Nat) (s : Bytes) :
    s = s.take k ++ ((s.drop k).take 2 ++ s.drop (k + 2)) := by
  rw [← List.drop_drop, List.take_append_drop, List.take_append_drop]

theorem AgreeAround.eq_of_crc16_eq {k : Nat} {s t : Bytes} (h : AgreeAround k s t)
    (hlength : s.length = t.length) (hcrc : crc16 s = crc16 t) : s = t := by
  have hbefore : s.take k = t.take k := by
    apply List.ext_getElem?
    intro i
    rw [List.getElem?_take, List.getElem?_take]
    split
    · exact h i (by omega) (by omega)
    · rfl
  have hbehind : s.drop (k + 2) = t.drop (k + 2) := by
    apply List.ext_getElem?
    intro i
    rw [List.getElem?_drop, List.getElem?_drop]
    exact h _ (by omega) (by omega)
  rw [eq_append_window k s, eq_append_window k t, ← hbefore, ← hbehind] at hcrc ⊢
  unfold crc16 at hcrc
  rw [List.foldl_append, List.foldl_append, List.foldl_append, List.foldl_append] at hcrc
  have hwindow := foldl_update_injective _ hcrc
  rw [eq_of_foldl_update_eq (by simp [hlength]) (by simp) hwindow]

/-- **The checksum detects every change of two adjacent bytes.** Texts of one length that differ, and
only inside such a window, have different checksums. For this is how the state changes: any data that
follows permutes the states, and two bytes lead from a state to a state that tells which bytes they
were. -/
theorem short_changes_detected :
    (∀ s t : Bytes, s.length = t.length → s ≠ t → (∃ k, AgreeAround k s t) → crc16 s ≠ crc16 t) ∧
      (∀ data : Bytes, Function.Bijective fun crc => data.foldl update crc) ∧
      ∀ crc, Function.Injective fun w : UInt8 × UInt8 => update (update crc w.1) w.2 := by
  refine ⟨?_, ?_, update_update_injective⟩
  · rintro s t hlength hne ⟨k, hagree⟩ hcrc
    exact hne (hagree.eq_of_crc16_eq hlength hcrc)
  · intro data
    exact Finite.injective_iff_bijective.mp (foldl_update_injective data)

/-- The two bytes in the middle of `abcd` exchanged. -/
theorem short_changes_detected_exchanged :
    [0x61, 0x62, 0x63, 0x64] ≠ ([0x61, 0x63, 0x62, 0x64] : Bytes) ∧
      AgreeAround 1 [0x61, 0x62, 0x63, 0x64] [0x61, 0x63, 0x62, 0x64] ∧
      crc16 [0x61, 0x62, 0x63, 0x64] ≠ crc16 [0x61, 0x63, 0x62, 0x64] := by
  have hne : [0x61, 0x62, 0x63, 0x64] ≠ ([0x61, 0x63, 0x62, 0x64] : Bytes) := by decide
  have hagree : AgreeAround 1 [0x61, 0x62, 0x63, 0x64] [0x61, 0x63, 0x62, 0x64] := by
    intro i h h'
    match i with
    | 0 => rfl
    | 3 => rfl
    | i + 4 => rfl
  exact ⟨hne, hagree, short_changes_detected.1 _ _ rfl hne ⟨1, hagree⟩⟩

end QuakeVm.Checksum
