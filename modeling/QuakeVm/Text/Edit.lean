import QuakeVm.Bytes
import QuakeVm.Limits

/-!
# Editing byte strings

Cutting out a part by signed positions, padding, replacing, comparing, and changing the case and
the high bit of characters.
-/

namespace QuakeVm.Edit

/-! ## Parts -/

/--
The range of a part of a string of `len` bytes. A negative start counts from the end, and a negative
length leaves that many bytes less one at the end. The range lies inside the string.
-/
def substringRange (len : Nat) (start length : Int) : Nat × Nat :=
  let start := if start < 0 then start + len else start
  let start := max 0 (min start len)
  let n := if length < 0 then length + (len - start + 1) else length
  (start.toNat, (min (start + max n 0) len).toNat)

/-- The part of `s` in a range. -/
def substring (s : Bytes) (start length : Int) : Bytes :=
  let r := substringRange s.length start length
  (s.take r.2).drop r.1

/-- `s` with spaces up to `|pad|` bytes: after it, or before it if `pad` is negative. -/
def pad (pad : Int) (s : Bytes) : Bytes :=
  let fill := List.replicate (min pad.natAbs Limits.text - s.length) 0x20
  if pad < 0 then fill ++ s else s ++ fill

/-! ## Replacing -/

/--
`subject` with every occurrence of `needle` in `hay` replaced, from the left and without overlaps.
`hay` is `subject` up to case, so that an occurrence in one marks a place in the other.
-/
def replaceIn (needle replacement : Bytes) : Bytes → Bytes → Bytes
  | [], subject => subject
  | c :: hay, subject =>
    if _h : needle ≠ [] ∧ needle.isPrefixOf (c :: hay) then
      replacement ++ replaceIn needle replacement ((c :: hay).drop needle.length)
        (subject.drop needle.length)
    else subject.take 1 ++ replaceIn needle replacement hay (subject.drop 1)
termination_by hay => hay.length
decreasing_by
  · have : 0 < needle.length := List.length_pos_iff.mpr _h.1
    simp only [List.length_drop, List.length_cons]
    omega
  · simp only [List.length_cons]
    omega

/-- Every occurrence of `search` replaced; `fold` ignores the case of letters. -/
def replace (search replacement subject : Bytes) (fold : Bool) : Bytes :=
  if fold then replaceIn (Bytes.lower search) replacement (Bytes.lower subject) subject
  else replaceIn search replacement subject subject

/-! ## Comparing -/

/-- `-1`, `0` or `1` as the first `n` bytes of `a` come before, equal or come after those of `b`. -/
def compare (a b : Bytes) (n : Option Nat) (fold : Bool) : Int :=
  let cut := fun (s : Bytes) => match n with
    | some n => s.take n
    | none => s
  let norm := fun (s : Bytes) => if fold then Bytes.lower (cut s) else cut s
  match Bytes.cmp (norm a) (norm b) with
  | .lt => -1
  | .eq => 0
  | .gt => 1

/-! ## Case and color -/

/--
The high bit of the `nth` character of its class: set by mode 1, cleared by mode 2, alternating from
set by mode 3 and from clear by mode 4.
-/
def recolor (c : UInt8) (mode : Int) (nth : Nat) : UInt8 :=
  let even := nth % 2 == 0
  if mode == 1 || (mode == 3 && even) || (mode == 4 && !even) then c ||| 0x80
  else if mode == 2 || (mode == 3 && !even) || (mode == 4 && even) then c &&& 0x7f
  else c

/-- A character under a case mode: 1 lowers and 2 raises. The high bit stays. -/
def recase (mode : Int) (c : UInt8) : UInt8 :=
  let base := c &&& 0x7f
  let high := c &&& 0x80
  (if mode == 1 then Bytes.lowerByte base
    else if mode == 2 then Bytes.upperByte base
    else base) ||| high

/--
Case and high bits of all characters. Letters and other printable characters are counted and
recolored apart, by `redAlpha` and `redChars`; `alpha` and `other` count those before.
-/
def convertFrom (caseMode redAlpha redChars : Int) (alpha other : Nat) : Bytes → Bytes
  | [] => []
  | c :: rest =>
    let c := recase caseMode c
    let base := c &&& 0x7f
    if Bytes.isAlpha base then
      recolor c redAlpha alpha :: convertFrom caseMode redAlpha redChars (alpha + 1) other rest
    else if 0x20 < base && base < 0x7f then
      recolor c redChars other :: convertFrom caseMode redAlpha redChars alpha (other + 1) rest
    else c :: convertFrom caseMode redAlpha redChars alpha other rest

/-- Case and high bits of all characters. -/
def convert (caseMode redAlpha redChars : Int) (s : Bytes) : Bytes :=
  convertFrom caseMode redAlpha redChars 0 0 s

end QuakeVm.Edit
