import QuakeVm.Proofs.Separators
import QuakeVm.Text.Edit

/-!
# Replacing is splitting and joining

Replacing goes through a string byte by byte, and splitting goes from one separator to the next. Both
take the leftmost place where the searched string fits and go on behind it, so that replacing puts the
replacement where splitting finds a separator (`replaceIn_eq`). What the replacement is does not matter,
because nothing is searched in it.

When the case of letters is ignored, the places are found in the string in lower case, and the parts
between them are taken from the string itself. Both have the same length, so a range of one is a range
of the other.

Splitting keeps a limited number of fields, and replacing has no such limit. A string that splits into
few fields may still split into too many of them when the case is ignored.
-/

namespace QuakeVm

namespace Token

variable {seps : List Bytes} {s rest : Bytes} {c : UInt8} {pos : Nat}

theorem usableSeparators_singleton (h : s ≠ []) : usableSeparators [s] = [s] := by
  rw [usableSeparators_eq]
  simp [h]

/-- A token that begins with one more byte. -/
def widen (c : UInt8) (t : Token) : Token := ⟨c :: t.text, t.start - 1, t.stop⟩

theorem exists_separateFrom (hseps : [] ∉ seps) (pos : Nat) (s : Bytes) :
    ∃ text ts, separateFrom seps pos s = ⟨text, pos, pos + text.length⟩ :: ts := by
  rcases hfield : field seps s with ⟨text, _ | ⟨sep, rest⟩⟩
  · exact ⟨text, [], separateFrom_of_none hfield⟩
  · exact ⟨text, _, separateFrom_of_some hseps hfield⟩

/-- A byte where no separator fits belongs to the field of the next byte. -/
theorem separateFrom_cons (hseps : [] ∉ seps) (hnone : separatorAt? seps (c :: rest) = none) :
    separateFrom seps pos (c :: rest) = (separateFrom seps (pos + 1) rest).modifyHead (widen c) := by
  have hcons : field seps (c :: rest) = (c :: (field seps rest).1, (field seps rest).2) := by
    rw [field, hnone]
  have hstop (text : Bytes) : pos + (c :: text).length = pos + 1 + text.length := by
    rw [List.length_cons, Nat.add_right_comm, Nat.add_assoc]
  rcases hfield : field seps rest with ⟨text, _ | ⟨sep, behind⟩⟩
  · rw [hfield] at hcons
    rw [separateFrom_of_none hcons, separateFrom_of_none hfield, hstop]
    rfl
  · rw [hfield] at hcons
    rw [separateFrom_of_some hseps hcons, separateFrom_of_some hseps hfield, hstop]
    rfl

end Token

namespace Edit

open Token

variable {needle hay subject whole : Bytes} {pos : Nat}

theorem intercalate_cons_head (glue : Bytes) (c : UInt8) (s : Bytes) (l : List Bytes) :
    glue.intercalate ((c :: s) :: l) = c :: glue.intercalate (s :: l) := by
  cases l <;> simp [List.intercalate_cons_cons]

/-- The replacement stands where a separator is found, between parts of the string itself. -/
theorem replaceIn_eq (hneedle : needle ≠ []) (replacement : Bytes)
    (hlength : hay.length = subject.length) (hwhole : whole.drop pos = subject) :
    replaceIn needle replacement hay subject =
      replacement.intercalate
        ((separateFrom [needle] pos hay).map fun t => whole.extract t.start t.stop) := by
  have hseps : [] ∉ [needle] := by simpa using hneedle.symm
  fun_induction replaceIn needle replacement hay subject generalizing pos with
  | case1 subject =>
    have hnil : subject = [] := List.length_eq_zero_iff.mp hlength.symm
    rw [separateFrom_of_none rfl, hnil]
    simp
  | case2 c hay subject hfits ih =>
    have hfield : field [needle] (c :: hay) =
        ([], some (needle, (c :: hay).drop needle.length)) := by
      simp [field, separatorAt?, hfits.2]
    have hdrop : whole.drop (pos + needle.length) = subject.drop needle.length := by
      rw [← hwhole, List.drop_drop]
    obtain ⟨text, ts, hrest⟩ :=
      exists_separateFrom hseps (pos + needle.length) ((c :: hay).drop needle.length)
    rw [separateFrom_of_some hseps hfield, ih (by simp only [List.length_drop, hlength]) hdrop,
      List.map_cons, List.length_nil, Nat.add_zero, hrest, List.map_cons, List.intercalate_cons_cons]
    simp
  | case3 c hay subject hfits ih =>
    have hnone : separatorAt? [needle] (c :: hay) = none := by
      rw [separatorAt?_eq_none, List.forall_mem_singleton, ← List.isPrefixOf_iff_prefix]
      exact fun hprefix => hfits ⟨hneedle, hprefix⟩
    obtain ⟨d, subject, rfl⟩ : ∃ d rest, subject = d :: rest :=
      List.exists_cons_of_length_eq_add_one hlength.symm
    have hdrop : whole.drop (pos + 1) = subject := by
      rw [← List.drop_drop, hwhole]
      rfl
    have hslice (n : Nat) : whole.extract pos (pos + 1 + n) =
        d :: whole.extract (pos + 1) (pos + 1 + n) := by
      rw [List.extract_eq_take_drop, List.extract_eq_take_drop, hwhole, hdrop, Nat.add_assoc,
        Nat.add_sub_cancel_left, ← Nat.add_assoc, Nat.add_sub_cancel_left, Nat.add_comm 1 n,
        List.take_succ_cons]
    have hrest := ih (Nat.succ.inj hlength) hdrop
    obtain ⟨text, ts, htokens⟩ := exists_separateFrom hseps (pos + 1) hay
    rw [htokens, List.map_cons] at hrest
    rw [separateFrom_cons hseps hnone, htokens, List.modifyHead_cons, List.map_cons]
    change _ = replacement.intercalate (whole.extract pos (pos + 1 + text.length) :: _)
    rw [hslice, intercalate_cons_head]
    exact congrArg (d :: ·) hrest

/-- **Replacing is splitting and joining**, as long as no field is left out. -/
theorem replace_eq_intercalate {search : Bytes} (hsearch : search ≠ []) (replacement subject : Bytes) :
    replace search replacement subject false =
        replacement.intercalate ((separate [search] subject).map (·.text)) ∧
      replace search replacement subject true =
        replacement.intercalate
          ((separate [Bytes.lower search] (Bytes.lower subject)).map fun t =>
            subject.extract t.start t.stop) := by
  have hlower : Bytes.lower search ≠ [] := by simpa [Bytes.lower] using hsearch
  have hseps : [] ∉ [search] := by simpa using hsearch.symm
  unfold separate
  rw [usableSeparators_singleton hsearch, usableSeparators_singleton hlower]
  constructor
  · obtain ⟨matched, hdivides, -⟩ := divides_separateFrom hseps (Nat.zero_le subject.length)
    rw [List.drop_zero] at hdivides
    rw [List.map_congr_left hdivides.text]
    exact replaceIn_eq hsearch replacement rfl rfl
  · exact replaceIn_eq hlower replacement (List.length_map _) rfl

/-- **A replaced string is the joined fields.** A string other than the empty one is replaced in a subject
that splits at it into at most 255 fields. The result is these fields, joined with the replacement. If
the case of letters is ignored and the subject in lower case splits into at most 255 fields, then the
result is what the subject has in the ranges of these fields, joined with the replacement. -/
theorem replaced_by_joining {search : Bytes} (hsearch : search ≠ []) (replacement subject : Bytes) :
    ((keep (separate [search] subject)).length ≤ 255 →
      replace search replacement subject false =
        replacement.intercalate ((keep (separate [search] subject)).map (·.text))) ∧
      ((keep (separate [Bytes.lower search] (Bytes.lower subject))).length ≤ 255 →
        replace search replacement subject true =
          replacement.intercalate
            ((keep (separate [Bytes.lower search] (Bytes.lower subject))).map fun t =>
              subject.extract t.start t.stop)) := by
  obtain ⟨hplain, hfolded⟩ := replace_eq_intercalate hsearch replacement subject
  constructor
  · intro hfew
    rw [keep_of_length_lt (Nat.lt_succ_of_le hfew), hplain]
  · intro hfew
    rw [keep_of_length_lt (Nat.lt_succ_of_le hfew), hfolded]

/-- The text `aAaAa`. -/
def alternating : Bytes := [0x61, 0x41, 0x61, 0x41, 0x61]

/-- Replacing `aa` by `aaa` finds nothing in the text as it stands. With the case ignored there are two
places, and a letter is left behind them. -/
theorem replaced_by_joining_alternating :
    ([0x61, 0x61] : Bytes) ≠ [] ∧
      (keep (separate [[0x61, 0x61]] alternating)).length ≤ 255 ∧
      replace [0x61, 0x61] [0x61, 0x61, 0x61] alternating false =
        List.intercalate [0x61, 0x61, 0x61]
          ((keep (separate [[0x61, 0x61]] alternating)).map (·.text)) ∧
      (keep (separate [Bytes.lower [0x61, 0x61]] (Bytes.lower alternating))).length ≤ 255 ∧
      replace [0x61, 0x61] [0x61, 0x61, 0x61] alternating true =
        List.intercalate [0x61, 0x61, 0x61]
          ((keep (separate [Bytes.lower [0x61, 0x61]] (Bytes.lower alternating))).map fun t =>
            alternating.extract t.start t.stop) := by
  have hsearch : ([0x61, 0x61] : Bytes) ≠ [] := by decide
  have hplain : (keep (separate [[0x61, 0x61]] alternating)).length ≤ 255 := by decide +kernel
  have hfolded :
      (keep (separate [Bytes.lower [0x61, 0x61]] (Bytes.lower alternating))).length ≤ 255 := by
    decide +kernel
  have hjoined := replaced_by_joining hsearch [0x61, 0x61, 0x61] alternating
  exact ⟨hsearch, hplain, hjoined.1 hplain, hfolded, hjoined.2 hfolded⟩

/-- The letter `a` is not in a subject of 256 letters `A`, so that this is a single field. But with the
case ignored there are 257 fields and only 256 of them are kept, and joining these puts 255 letters `b`
where replacing puts 256. -/
theorem folded_fields_cut_off :
    ([0x61] : Bytes) ≠ [] ∧
      (keep (separate [[0x61]] (List.replicate 256 0x41))).length ≤ 255 ∧
      replace [0x61] [0x62] (List.replicate 256 0x41) true ≠
        List.intercalate [0x62]
          ((keep (separate [Bytes.lower [0x61]] (Bytes.lower (List.replicate 256 0x41)))).map fun t =>
            (List.replicate 256 0x41 : Bytes).extract t.start t.stop) := by
  decide +kernel

end Edit

end QuakeVm
