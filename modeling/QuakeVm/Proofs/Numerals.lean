import QuakeVm.Number.Digits
import QuakeVm.Number.Scan
import Mathlib.Data.Nat.Digits.Lemmas

/-!
# Numerals

Numbers are written with as few digits as they have, and they are read with any number of zeros in
front and with anything behind them. `Spells` is what the two have in common: the digits of a base that
stand for a number, whatever the zeros in front of them.

The digits of `Number.digits` are those of the library in the other order, so that what they stand for,
how large they are and how many there are is known.
-/

namespace QuakeVm.Number

/-! ## Digits -/

theorem digits_of_lt {b n : Nat} (h : n < b) : digits b n = [n] := by
  rw [digits, dif_neg (by omega)]

/-- The last digit is the remainder. -/
theorem digits_of_le {b n : Nat} (hb : 2 ≤ b) (h : b ≤ n) :
    digits b n = digits b (n / b) ++ [n % b] := by
  rw [digits, dif_pos ⟨hb, h⟩]

/-- Digits stand with the greatest first. -/
theorem digits_eq_reverse {b n : Nat} (hb : 2 ≤ b) (hn : n ≠ 0) :
    digits b n = (Nat.digits b n).reverse := by
  induction n using Nat.strongRecOn with
  | _ n ih =>
    rcases Nat.lt_or_ge n b with hlt | hle
    · rw [digits_of_lt hlt, Nat.digits_of_lt b n hn hlt, List.reverse_singleton]
    · have hdiv : n / b ≠ 0 := Nat.div_ne_zero_iff.mpr ⟨by omega, hle⟩
      rw [digits_of_le hb hle, ih (n / b) (Nat.div_lt_self (by omega) hb) hdiv,
        Nat.digits_def' hb (Nat.pos_of_ne_zero hn), List.reverse_cons]

theorem digits_ne_nil (b n : Nat) : digits b n ≠ [] := by
  rw [digits]
  split <;> simp

/-- A number below the power `k` of the base has at most `k` digits. -/
theorem length_digits_le {b n k : Nat} (hb : 2 ≤ b) (hk : 1 ≤ k) (h : n < b ^ k) :
    (digits b n).length ≤ k := by
  by_cases hn : n = 0
  · subst hn
    rwa [digits_of_lt (by omega), List.length_singleton]
  · rw [digits_eq_reverse hb hn, List.length_reverse]
    exact (Nat.digits_length_le_iff hb n).mpr h

/-- The numeral of a number other than zero does not begin with a zero. -/
theorem head?_digits_ne_zero {b n : Nat} (hb : 2 ≤ b) (hn : n ≠ 0) :
    (digits b n).head? ≠ some 0 := by
  rw [digits_eq_reverse hb hn, List.head?_reverse,
    List.getLast?_eq_some_getLast (Nat.digits_ne_nil_iff_ne_zero.mpr hn)]
  exact fun h => Nat.getLast_digit_ne_zero b hn (Option.some.inj h)

/-- Digits of a base that stand for a number. There may be zeros in front, and zero needs no digit. -/
structure Spells (b n : Nat) (ds : List Nat) : Prop where
  lt : ∀ d ∈ ds, d < b
  value : Nat.ofDigits b ds.reverse = n

namespace Spells

variable {b n : Nat} {ds : List Nat}

/-- A number is spelled by its digits. -/
theorem digits (hb : 2 ≤ b) (n : Nat) : Spells b n (Number.digits b n) := by
  by_cases hn : n = 0
  · subst hn
    rw [digits_of_lt (by omega)]
    exact ⟨by simp; omega, rfl⟩
  · rw [digits_eq_reverse hb hn]
    refine ⟨fun d hd => Nat.digits_lt_base hb (List.mem_reverse.mp hd), ?_⟩
    rw [List.reverse_reverse, Nat.ofDigits_digits]

theorem nil (b : Nat) : Spells b 0 [] := ⟨nofun, rfl⟩

/-- Zeros in front do not change what is spelled. -/
theorem zeros (h : Spells b n ds) (hb : 0 < b) (j : Nat) :
    Spells b n (List.replicate j 0 ++ ds) := by
  constructor
  · intro d hd
    rcases List.mem_append.mp hd with hd | hd
    · rwa [(List.mem_replicate.mp hd).2]
    · exact h.lt d hd
  · rw [List.reverse_append, List.reverse_replicate, Nat.ofDigits_append_replicate_zero, h.value]

/-- The number is worked out from the first digit on. -/
theorem foldl_eq (h : Spells b n ds) : ds.foldl (fun v d => v * b + d) 0 = n := by
  rw [← h.value, Nat.ofDigits_eq_foldr, List.foldr_reverse]
  simp only [Nat.cast_id, Nat.mul_comm b, Nat.add_comm]

end Spells

/-! ## Bytes of digits -/

theorem isDigit_digitByte {d : Nat} (h : d < 10) (upper : Bool) :
    Bytes.isDigit (digitByte upper d) = true := by
  have hall : ∀ upper, ∀ d < 10, Bytes.isDigit (digitByte upper d) = true := by decide
  exact hall upper d h

theorem digitValue_digitByte {d : Nat} (h : d < 10) (upper : Bool) :
    Bytes.digitValue (digitByte upper d) = d := by
  have hall : ∀ upper, ∀ d < 10, Bytes.digitValue (digitByte upper d) = d := by decide
  exact hall upper d h

theorem hexValue?_digitByte {d : Nat} (h : d < 16) (upper : Bool) :
    Bytes.hexValue? (digitByte upper d) = some d := by
  have hall : ∀ upper, ∀ d < 16, Bytes.hexValue? (digitByte upper d) = some d := by decide
  exact hall upper d h

/-- Different digits have different letters. -/
theorem digitByte_injective {d e : Nat} (hd : d < 16) (he : e < 16) {upper : Bool}
    (h : digitByte upper d = digitByte upper e) : d = e := by
  have hvalue := hexValue?_digitByte hd upper
  rw [h, hexValue?_digitByte he] at hvalue
  exact (Option.some.inj hvalue).symm

/-! ## Reading digits -/

theorem isDigit_map_digitByte {n : Nat} {ds : List Nat} (h : Spells 10 n ds) (upper : Bool) :
    ∀ c ∈ ds.map (digitByte upper), Bytes.isDigit c = true :=
  List.forall_mem_map.mpr fun d hd => isDigit_digitByte (h.lt d hd) upper

/-- Decimal digits are read up to the first byte that is none. -/
theorem value_spelled {n : Nat} {ds : List Nat} (h : Spells 10 n ds) (upper : Bool) {rest : Bytes}
    (hrest : ∀ c ∈ rest.head?, Bytes.isDigit c = false) :
    scanInt.value (ds.map (digitByte upper) ++ rest) = Int32.ofNat n := by
  have hstop : rest.takeWhile Bytes.isDigit = [] := by
    cases rest with
    | nil => rfl
    | cons c rest => exact List.takeWhile_cons_of_neg (by simp [hrest c rfl])
  have hstep (l : List Nat) (hl : ∀ d ∈ l, d < 10) (v : Nat) :
      (l.map (digitByte upper)).foldl
          (fun v c => v * 10 + Int32.ofNat (Bytes.digitValue c)) (Int32.ofNat v) =
        Int32.ofNat (l.foldl (fun v d => v * 10 + d) v) := by
    induction l generalizing v with
    | nil => rfl
    | cons d l ih =>
      rw [List.map_cons, List.foldl_cons, digitValue_digitByte (hl d List.mem_cons_self),
        List.foldl_cons, ← ih fun e he => hl e (List.mem_cons_of_mem d he)]
      congr 1
      rw [Int32.ofNat_add, Int32.ofNat_mul]
      rfl
  unfold scanInt.value
  rw [List.takeWhile_append_of_pos (isDigit_map_digitByte h upper), hstop, List.append_nil]
  exact (hstep ds h.lt 0).trans (by rw [h.foldl_eq])

/-- Hexadecimal digits are read to the first byte that is none. -/
theorem hexDigits_map {ds : List Nat} (h : ∀ d ∈ ds, d < 16) (upper : Bool) {rest : Bytes}
    (hrest : ∀ c ∈ rest.head?, Bytes.hexValue? c = none) :
    hexDigits (ds.map (digitByte upper) ++ rest) = ds := by
  induction ds with
  | nil =>
    cases rest with
    | nil => rfl
    | cons c rest => simp [hexDigits, hrest c rfl]
  | cons d ds ih =>
    rw [List.map_cons, List.cons_append, hexDigits, hexValue?_digitByte (h d List.mem_cons_self)]
    exact congrArg (d :: ·) (ih fun e he => h e (List.mem_cons_of_mem d he))

/-- Shifting by four bits and filling them with a digit is what base sixteen does. -/
theorem shift_or_digit (v : Nat) {d : Nat} (h : d < 16) :
    UInt32.ofNat v <<< 4 ||| UInt32.ofNat d = UInt32.ofNat (v * 16 + d) := by
  have hshift : v * 16 + d = v <<< 4 ||| d := by
    rw [← Nat.shiftLeft_add_eq_or_of_lt h, Nat.shiftLeft_eq]
  rw [hshift, UInt32.ofNat_or, UInt32.ofNat_shiftLeft v 4 (by decide)]
  rfl

/-- Shifting by four bits is multiplying by sixteen, up to the size of a word. -/
theorem foldl_shift {ds : List Nat} (h : ∀ d ∈ ds, d < 16) (v : Nat) :
    ds.foldl (fun (v : UInt32) d => v <<< 4 ||| UInt32.ofNat d) (UInt32.ofNat v) =
      UInt32.ofNat (ds.foldl (fun v d => v * 16 + d) v) := by
  induction ds generalizing v with
  | nil => rfl
  | cons d ds ih =>
    rw [List.foldl_cons, shift_or_digit v (h d List.mem_cons_self), List.foldl_cons,
      ih fun e he => h e (List.mem_cons_of_mem d he)]

/-! ## Reading numbers -/

theorem skipBlanks_replicate (i : Nat) (s : Bytes) :
    skipBlanks (List.replicate i 0x20 ++ s) = skipBlanks s :=
  List.dropWhile_append_of_pos fun c hc => by rw [(List.mem_replicate.mp hc).2]; rfl

theorem skipBlanks_of_head {s : Bytes} (h : ∀ c ∈ s.head?, Bytes.isBlank c = false) :
    skipBlanks s = s := by
  cases s with
  | nil => rfl
  | cons c rest => exact List.dropWhile_cons_of_neg (by simp [h c rfl])

theorem head?_spaces {k : Nat} {c : UInt8} (h : c ∈ (List.replicate k (0x20 : UInt8)).head?) :
    c = 0x20 := by
  cases k with
  | zero => cases h
  | succ k => exact (Option.some.inj h).symm

/-- The blanks behind digits are not skipped, unless there is no digit. -/
theorem skipBlanks_digits {ds : List Nat} (h : ∀ d ∈ ds, d < 16) (upper : Bool) (k : Nat) :
    ∃ k', skipBlanks (ds.map (digitByte upper) ++ List.replicate k 0x20) =
      ds.map (digitByte upper) ++ List.replicate k' 0x20 := by
  cases ds with
  | nil =>
    refine ⟨0, ?_⟩
    simpa [skipBlanks] using skipBlanks_replicate k []
  | cons d ds =>
    have hblank : ∀ upper, ∀ d < 16, Bytes.isBlank (digitByte upper d) = false := by decide
    refine ⟨k, skipBlanks_of_head fun c hc => ?_⟩
    cases hc
    exact hblank upper d (h d List.mem_cons_self)

/-- Spaces before a sign are passed over. -/
theorem scanInt_minus (i : Nat) (s : Bytes) :
    scanInt (List.replicate i 0x20 ++ 0x2d :: s) = -scanInt.value s := by
  unfold scanInt
  rw [skipBlanks_replicate, skipBlanks_of_head (by simp [Bytes.isBlank])]
  rfl

theorem scanInt_plus (i : Nat) (s : Bytes) :
    scanInt (List.replicate i 0x20 ++ 0x2b :: s) = scanInt.value s := by
  unfold scanInt
  rw [skipBlanks_replicate, skipBlanks_of_head (by simp [Bytes.isBlank])]
  rfl

theorem scanInt_of_head {s : Bytes} (h : ∀ c ∈ (skipBlanks s).head?, c ≠ 0x2d ∧ c ≠ 0x2b) :
    scanInt s = scanInt.value (skipBlanks s) := by
  unfold scanInt
  dsimp only
  split
  · rename_i hs
    exact absurd rfl (h 0x2d (by rw [hs]; rfl)).1
  · rename_i hs
    exact absurd rfl (h 0x2b (by rw [hs]; rfl)).2
  · rfl

/-- A decimal number between spaces is read modulo `2 ^ 32`. -/
theorem scanInt_spelled {n : Nat} {ds : List Nat} (h : Spells 10 n ds) (upper : Bool) (i k : Nat) :
    scanInt (List.replicate i 0x20 ++ (ds.map (digitByte upper) ++ List.replicate k 0x20)) =
      Int32.ofNat n := by
  obtain ⟨k', hskip⟩ := skipBlanks_digits (fun d hd => (h.lt d hd).trans (by decide)) upper k
  have htext := skipBlanks_replicate i (ds.map (digitByte upper) ++ List.replicate k 0x20)
  rw [hskip] at htext
  rw [scanInt_of_head, htext, value_spelled h upper fun c hc => by rw [head?_spaces hc]; rfl]
  rw [htext]
  intro c hc
  cases ds with
  | nil =>
    rw [head?_spaces hc]
    decide
  | cons d ds =>
    have hdigit := isDigit_digitByte (h.lt d List.mem_cons_self) upper
    cases hc
    constructor <;> rintro heq <;> rw [heq] at hdigit <;> cases hdigit

/-- A hexadecimal number between spaces is read modulo `2 ^ 32`. -/
theorem scanHex_spelled {n : Nat} {ds : List Nat} (h : Spells 16 n ds) (upper : Bool) (i k : Nat) :
    scanHex (List.replicate i 0x20 ++ (ds.map (digitByte upper) ++ List.replicate k 0x20)) =
      (UInt32.ofNat n).toInt32 := by
  obtain ⟨k', hskip⟩ := skipBlanks_digits h.lt upper k
  unfold scanHex
  rw [skipBlanks_replicate, hskip,
    hexDigits_map h.lt upper fun c hc => by rw [head?_spaces hc]; rfl]
  exact congrArg UInt32.toInt32 ((foldl_shift h.lt 0).trans (by rw [h.foldl_eq]))

end QuakeVm.Number
