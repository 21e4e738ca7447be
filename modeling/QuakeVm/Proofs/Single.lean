import QuakeVm.Proofs.Calls

/-!
# Singles in registers

A single is put into a register as its bit pattern. Bit patterns are packed from a sign, an exponent and
a mantissa, and all patterns of NaN but one are left out. So a valid pattern that is unpacked and packed
again is the same (`pack_unpack`), and a single that was written to a register is read back, whether it
is a number or not (`float_setFloat`).
-/

namespace QuakeVm

namespace Single

open Float.Model Float.Model.UnpackedFloat

theorem toBitVec_ofBitVec (b : BitVec 1) : (Sign.ofBitVec b).toBitVec = b := by
  rcases BitVec.eq_zero_or_eq_one b with rfl | rfl <;> rfl

/-- A bit pattern consists of its sign, its exponent and its mantissa. -/
theorem packComponents_unpack {f : Format} (b : BitVec f.numBits) :
    packComponents f (Sign.ofBitVec (unpackSign b))
      (unpackExponent b) (unpackMantissa b) = b := by
  have hmantissa := f.hm
  have hexponent := f.he
  unfold packComponents
  rw [toBitVec_ofBitVec]
  refine BitVec.eq_of_getLsbD_eq fun i hi => ?_
  unfold unpackSign
  simp only [BitVec.getLsbD_append, unpackMantissa, unpackExponent, BitVec.getLsbD_cast,
    BitVec.extractLsb, BitVec.getLsbD_extractLsb']
  by_cases hm : i < f.mantissaBitsWithoutImplicit
  · simp [hm, Nat.sub_add_cancel hmantissa]
  · by_cases he : i - f.mantissaBitsWithoutImplicit < f.exponentBits
    · have hlt : i - f.mantissaBitsWithoutImplicit < f.mantissaBitsWithoutImplicit +
          f.exponentBits - 1 - f.mantissaBitsWithoutImplicit + 1 := by omega
      simp [hm, he, hlt, Nat.add_sub_cancel' (Nat.not_lt.mp hm)]
    · obtain rfl : i = f.mantissaBitsWithoutImplicit + f.exponentBits := by omega
      simp [hm]

/-- A finite number is packed with the exponent `k` if that is its biased one; then its mantissa has 24
bits unless `k` is zero. -/
theorem pack_finite {s : Sign} {m : Nat} {e : Int} (hpos : 0 < m) {k : BitVec 8} (hk : k ≠ -1#8)
    (he : e + 127 + 23 = max k.toNat 1) (hm : m.log2 + 1 = 24 ↔ k ≠ 0#8) :
    UnpackedFloat.pack .binary32 (.finite s m e hpos) =
      packComponents .binary32 s k (BitVec.ofNat 23 m) := by
  have hlt : k.toNat + 1 < 256 := by
    have hlt := k.isLt
    have hne : k.toNat ≠ 255 := fun h => hk (BitVec.eq_of_toNat_eq h)
    omega
  have hbiased : (e + 127 + 23).toNat = max k.toNat 1 := by omega
  show (if 256 ≤ (e + 127 + 23).toNat + 1 then _ else if m.log2 + 1 = 24 then
    packComponents .binary32 s (BitVec.ofNat 8 (e + 127 + 23).toNat) _ else
      packComponents .binary32 s 0#8 _) = _
  rw [hbiased, if_neg (by omega)]
  by_cases hz : k = 0#8
  · rw [if_neg fun h => hm.mp h hz, hz]
  · have hne : k.toNat ≠ 0 := fun h => hz (BitVec.eq_of_toNat_eq h)
    rw [if_pos (hm.mpr hz), Nat.max_eq_left (by omega), BitVec.ofNat_toNat, BitVec.setWidth_eq]

/-- A valid bit pattern is packed again from what it is unpacked to. -/
theorem pack_unpack {b : BitVec Format.binary32.numBits} (hb : Format.binary32.Valid b) :
    UnpackedFloat.pack .binary32 (UnpackedFloat.unpack .binary32 b) = b := by
  have hparts := packComponents_unpack b
  have hlt : (unpackMantissa b).toNat < 0x800000 :=
    (unpackMantissa b).isLt
  unfold UnpackedFloat.unpack
  dsimp only
  by_cases he : unpackExponent b = -1#_
  · rw [if_pos he]
    -- Infinity, or the one NaN that is valid.
    by_cases hm : unpackMantissa b = 0#_
    · rw [if_pos hm]
      rw [he, hm] at hparts
      exact hparts
    · rw [if_neg hm]
      exact (hb.eq_packedNaN he hm).symm
  rw [if_neg he]
  by_cases hz : unpackExponent b = 0#_
  · rw [if_pos hz]
    by_cases hm : unpackMantissa b = 0#_
    · rw [dif_pos hm]
      rw [hz, hm] at hparts
      exact hparts
    · -- A subnormal number: its mantissa is taken as it is.
      have hne : (unpackMantissa b).toNat ≠ 0 := fun h => hm (BitVec.eq_of_toNat_eq h)
      have hlog : (unpackMantissa b).toNat.log2 < 23 := (Nat.log2_lt hne).mpr hlt
      rw [dif_neg hm, pack_finite _ he]
      · rw [BitVec.ofNat_toNat, BitVec.setWidth_eq, hparts]
      · rw [hz]
        rfl
      · rw [hz]
        exact ⟨fun h => by omega, fun h => absurd rfl h⟩
  · -- A normal number: the mantissa has one more bit than is stored.
    have hne : (unpackExponent b).toNat ≠ 0 := fun h => hz (BitVec.eq_of_toNat_eq h)
    have happend : (1#1 ++ unpackMantissa b).toNat = 0x800000 + (unpackMantissa b).toNat := by
      rw [BitVec.toNat_append, ← Nat.shiftLeft_add_eq_or_of_lt hlt]
      rfl
    have hlog : (0x800000 + (unpackMantissa b).toNat).log2 = 23 := by
      rw [Nat.log2_eq_iff (by omega)]
      omega
    have hmantissa : BitVec.ofNat 23 (1#1 ++ unpackMantissa b).toNat = unpackMantissa b := by
      apply BitVec.eq_of_toNat_eq
      rw [BitVec.toNat_ofNat, happend, Nat.add_mod_left, Nat.mod_eq_of_lt hlt]
    rw [if_neg hz, pack_finite _ he]
    · rw [hmantissa, hparts]
    · show ((unpackExponent b).toNat : Int) - (127 + 23) + 127 + 23 = _
      omega
    · rw [happend, hlog]
      exact ⟨fun _ => hz, fun _ => rfl⟩

/-- The bits of a single give the single. -/
theorem ofBits_toBits (x : Float32) : Float32.ofBits x.toBits = x := by
  obtain ⟨⟨bits, hvalid⟩⟩ := x
  have hpack : UnpackedFloat.pack .binary32 (UnpackedFloat.unpack .binary32 bits.toBitVec) =
      bits.toBitVec := pack_unpack hvalid
  have hbits : (Float32.Model.ofBits bits).toBits = bits := congrArg UInt32.ofBitVec hpack
  show Float32.ofModel (Float32.Model.ofBits bits) = Float32.ofModel ⟨bits, hvalid⟩
  generalize Float32.Model.ofBits bits = packed at hbits ⊢
  cases packed
  subst hbits
  rfl

end Single

namespace Registers

variable {r : Registers} {i j : Nat}

theorem float_setFloat (hi : i < r.size) (v : Float32) : (r.setFloat i v).float i = v := by
  unfold float setFloat
  rw [get_set_self r _ hi]
  exact Single.ofBits_toBits v

theorem get_setFloat_ne (hne : i ≠ j) (v : Float32) : (r.setFloat i v).get j = r.get j :=
  get_set_ne r _ hne

theorem float_setFloat_ne (hne : i ≠ j) (v : Float32) : (r.setFloat i v).float j = r.float j := by
  unfold float
  rw [get_setFloat_ne hne]

theorem get_setVector_of_not (hj : ¬ (i ≤ j ∧ j < i + 3)) (v : Vec3) :
    (r.setVector i v).get j = r.get j := by
  unfold setVector
  rw [get_setFloat_ne (by omega), get_setFloat_ne (by omega), get_setFloat_ne (by omega)]

theorem vector_setVector (hi : i + 3 ≤ r.size) (v : Vec3) : (r.setVector i v).vector i = v := by
  unfold vector setVector
  rw [float_setFloat_ne (by omega), float_setFloat_ne (by omega), float_setFloat (by omega),
    float_setFloat_ne (by omega), float_setFloat (by simp only [size_setFloat]; omega),
    float_setFloat (by simp only [size_setFloat]; omega)]

end Registers

end QuakeVm
