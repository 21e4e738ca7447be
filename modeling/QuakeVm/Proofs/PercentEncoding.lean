import QuakeVm.Text.Uri
import QuakeVm.Proofs.Numerals

/-!
# Percent encoding and back

Writing replaces each byte by an item of its own, a byte that stands for itself or a percent sign with
two digits, and reading takes such items off again one by one. A percent sign is never a digit, so it
always begins an item, whatever stands before it (`unescape_append`). That is why a percent sign without
two digits behind it can stand for itself and does not disturb its neighbours.
-/

namespace QuakeVm.Uri

/-! ## The encoded form -/

/-- A letter, a digit, or one of the marks that are safe everywhere. -/
def Unreserved (c : UInt8) : Prop :=
  (0x61 ≤ c ∧ c ≤ 0x7a) ∨ (0x41 ≤ c ∧ c ≤ 0x5a) ∨ (0x30 ≤ c ∧ c ≤ 0x39) ∨
    c ∈ Bytes.ofText "!*().-_~"

/-- A hexadecimal digit with a letter in upper case. -/
def IsUpperHex (c : UInt8) : Prop := (0x30 ≤ c ∧ c ≤ 0x39) ∨ (0x41 ≤ c ∧ c ≤ 0x46)

/-- A hexadecimal digit with a letter in either case. -/
def IsHex (c : UInt8) : Prop := IsUpperHex c ∨ (0x61 ≤ c ∧ c ≤ 0x66)

/-- Two hexadecimal digits stand at the beginning. -/
def BeginsWithPair (s : Bytes) : Prop :=
  ∃ high low rest, s = high :: low :: rest ∧ IsHex high ∧ IsHex low

/-- Text of unreserved bytes and of percent signs with two upper-case digits each. -/
inductive Encoded : Bytes → Prop
  | nil : Encoded []
  | plain {c : UInt8} {rest : Bytes} : Unreserved c → Encoded rest → Encoded (c :: rest)
  | percent {high low : UInt8} {rest : Bytes} : IsUpperHex high → IsUpperHex low → Encoded rest →
      Encoded (0x25 :: high :: low :: rest)

theorem isUnreserved_iff (c : UInt8) : isUnreserved c = true ↔ Unreserved c := by
  have hmarks : Bytes.ofText "!*().-_~" = [0x21, 0x2a, 0x28, 0x29, 0x2e, 0x2d, 0x5f, 0x7e] := by
    decide +kernel
  simp only [isUnreserved, Unreserved, hmarks, Bytes.isAlpha, Bytes.isUpper, Bytes.isLower,
    Bytes.isDigit, Bool.or_eq_true, Bool.and_eq_true, decide_eq_true_eq, List.contains_iff_mem]
  grind

theorem isUpperHex_digitByte {d : Nat} (h : d < 16) : IsUpperHex (Number.digitByte true d) := by
  have hall : ∀ d < 16, (0x30 ≤ Number.digitByte true d ∧ Number.digitByte true d ≤ 0x39) ∨
      (0x41 ≤ Number.digitByte true d ∧ Number.digitByte true d ≤ 0x46) := by decide
  exact hall d h

theorem encoded_escape (s : Bytes) : Encoded (escape s) := by
  induction s with
  | nil => exact .nil
  | cons c s ih =>
    change Encoded (escapeByte c ++ escape s)
    have hlt := c.toNat_lt
    unfold escapeByte
    split
    · rename_i hplain
      exact .plain ((isUnreserved_iff c).mp hplain) ih
    · exact .percent (isUpperHex_digitByte (by omega)) (isUpperHex_digitByte (by omega)) ih

/-! ## Reading -/

section Reading

variable {c high low : UInt8}

theorem hexValue?_eq_none_iff : Bytes.hexValue? c = none ↔ ¬ IsHex c := by
  simp only [Bytes.hexValue?, Bytes.isDigit, IsHex, IsUpperHex, Bool.and_eq_true, decide_eq_true_eq]
  split_ifs <;> simp <;> grind

theorem hexPair?_eq_none_iff : hexPair? high low = none ↔ ¬ (IsHex high ∧ IsHex low) := by
  rw [not_and_or, ← hexValue?_eq_none_iff, ← hexValue?_eq_none_iff]
  unfold hexPair?
  cases Bytes.hexValue? high <;> cases Bytes.hexValue? low <;> simp

/-- A percent sign is no digit. -/
theorem not_isHex_percent : ¬ IsHex 0x25 := by
  rw [← hexValue?_eq_none_iff]
  rfl

/-- A byte that begins no pair stands for itself. -/
theorem unescape_cons (s : Bytes) (h : c = 0x25 → ¬ BeginsWithPair s) :
    unescape (c :: s) = c :: unescape s := by
  match s with
  | [] => rfl
  | [_] => rfl
  | high :: low :: rest =>
    rw [unescape]
    split
    · rename_i hc
      have hnone : hexPair? high low = none :=
        hexPair?_eq_none_iff.mpr fun hpair => h (eq_of_beq hc) ⟨high, low, rest, rfl, hpair⟩
      rw [hnone]
    · rfl

theorem unescape_pair {b : UInt8} (rest : Bytes) (h : hexPair? high low = some b) :
    unescape (0x25 :: high :: low :: rest) = b :: unescape rest := by
  rw [unescape, if_pos (beq_self_eq_true _), h]

/-- A percent sign completes no pair. -/
theorem beginsWithPair_append (u v : Bytes) :
    BeginsWithPair (u ++ 0x25 :: v) ↔ BeginsWithPair u := by
  constructor
  · rintro ⟨high, low, rest, heq, hhigh, hlow⟩
    match u with
    | [] =>
      obtain rfl := (List.cons.inj heq).1
      exact absurd hhigh not_isHex_percent
    | [_] =>
      obtain rfl := (List.cons.inj (List.cons.inj heq).2).1
      exact absurd hlow not_isHex_percent
    | _ :: _ :: u =>
      cases heq
      exact ⟨_, _, u, rfl, hhigh, hlow⟩
  · rintro ⟨high, low, rest, rfl, hpair⟩
    exact ⟨high, low, rest ++ 0x25 :: v, rfl, hpair⟩

/-- **A percent sign begins an item**, whatever stands before it. -/
theorem unescape_append (u v : Bytes) :
    unescape (u ++ 0x25 :: v) = unescape u ++ unescape (0x25 :: v) := by
  match u with
  | [] => rfl
  | c :: u =>
    by_cases hpair : c = 0x25 ∧ BeginsWithPair u
    · obtain ⟨rfl, high, low, rest, rfl, hhex⟩ := hpair
      obtain ⟨b, hb⟩ : ∃ b, hexPair? high low = some b :=
        Option.ne_none_iff_exists'.mp fun hnone => hexPair?_eq_none_iff.mp hnone hhex
      rw [unescape_pair rest hb]
      change unescape (0x25 :: high :: low :: (rest ++ 0x25 :: v)) = _
      rw [unescape_pair _ hb, unescape_append rest v, List.cons_append]
    · have hplain : c = 0x25 → ¬ BeginsWithPair u := not_and.mp hpair
      have hplain' : c = 0x25 → ¬ BeginsWithPair (u ++ 0x25 :: v) := by
        rwa [beginsWithPair_append]
      rw [unescape_cons u hplain, List.cons_append, unescape_cons _ hplain', unescape_append u v,
        List.cons_append]
termination_by u.length

end Reading

/-! ## Reading what was written -/

theorem hexPair?_digits (c : UInt8) :
    hexPair? (Number.digitByte true (c.toNat / 16)) (Number.digitByte true (c.toNat % 16)) =
      some c := by
  have hlt := c.toNat_lt
  rw [hexPair?, Number.hexValue?_digitByte (by omega), Number.hexValue?_digitByte (by omega)]
  have hvalue : c.toNat / 16 * 16 + c.toNat % 16 = c.toNat := by omega
  simp [hvalue]

/-- A byte that was written is read back, whatever follows it. -/
theorem unescape_escapeByte (c : UInt8) (rest : Bytes) :
    unescape (escapeByte c ++ rest) = c :: unescape rest := by
  unfold escapeByte
  split
  · rename_i hplain
    refine unescape_cons rest fun hc => ?_
    subst hc
    exact absurd hplain (by decide)
  · exact unescape_pair rest (hexPair?_digits c)

theorem unescape_escape (s : Bytes) : unescape (escape s) = s := by
  induction s with
  | nil => rfl
  | cons c s ih => exact (unescape_escapeByte c (escape s)).trans (congrArg (c :: ·) ih)

/-- **Percent encoding is undone by reading it.** What is written has unreserved bytes and percent signs
with two upper-case digits only, and it is read as what it was; so reading, writing and reading again is
reading once. Any text may be read: a percent sign that two digits do not follow stands for itself, and
what is before and behind it is read as if it were not there. -/
theorem escape_undone (s t : Bytes) :
    Encoded (escape s) ∧ unescape (escape s) = s ∧
      unescape (escape (unescape t)) = unescape t ∧
      ∀ u v, ¬ BeginsWithPair v → unescape (u ++ 0x25 :: v) = unescape u ++ 0x25 :: unescape v := by
  refine ⟨encoded_escape s, unescape_escape s, unescape_escape (unescape t), fun u v hv => ?_⟩
  rw [unescape_append, unescape_cons v fun _ => hv]

/-- In `%41%4` the first percent sign has its digits and the second one does not. -/
theorem escape_undone_short : ¬ BeginsWithPair [0x34] ∧
    unescape ([0x25, 0x34, 0x31] ++ 0x25 :: [0x34]) = [0x41] ++ 0x25 :: [0x34] := by
  have hshort : ¬ BeginsWithPair [0x34] := by
    rintro ⟨high, low, rest, heq, -⟩
    cases heq
  obtain ⟨-, -, -, hpercent⟩ := escape_undone [] []
  exact ⟨hshort, hpercent [0x25, 0x34, 0x31] [0x34] hshort⟩

end QuakeVm.Uri
