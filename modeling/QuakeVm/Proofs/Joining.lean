import QuakeVm.Proofs.BufferMaps

/-!
# Joining the strings of a buffer

A program gets the strings of a buffer joined by a glue, as far as a string of a program can hold
them. The pieces are added one after the other while there is room, and the first that does not fit is
cut and ends it. The cut may fall into the glue or into a string, or between two of them, where empty
pieces may still follow and fit.

None of this shows in the result: whatever the pieces are, adding one gives the front of all that was
to be added so far (`addPiece_eq`), and once this is cut, nothing that follows makes a difference
(`fitted_append`).
-/

namespace QuakeVm

namespace Buffer

variable {s out : Bytes}

/-- A text as far as a string of a program can hold it, and whether that is all of it. -/
def fitted (s : Bytes) : Bytes × Bool := (s.take Limits.text, decide (s.length ≤ Limits.text))

theorem fitted_of_le (h : s.length ≤ Limits.text) : fitted s = (s, true) := by
  simp [fitted, List.take_of_length_le h, h]

theorem fitted_of_lt (h : Limits.text < s.length) : fitted s = (s.take Limits.text, false) := by
  simp [fitted, h]

/-- Behind what does not fit nothing matters. -/
theorem fitted_append (h : Limits.text < s.length) (t : Bytes) : fitted (s ++ t) = fitted s := by
  have hlt : Limits.text < (s ++ t).length := by
    rw [List.length_append]
    omega
  rw [fitted_of_lt hlt, fitted_of_lt h, List.take_append_of_le_length (Nat.le_of_lt h)]

/-- To add a piece is to add it whole and to cut what is too long. -/
theorem addPiece_eq (h : out.length ≤ Limits.text) (piece : Bytes) :
    addPiece out piece = fitted (out ++ piece) := by
  have hroom : piece.length ≤ Limits.text - out.length ↔
      (out ++ piece).length ≤ Limits.text := by
    rw [List.length_append]
    omega
  simp [addPiece, fitted, List.take_append, List.take_of_length_le h, hroom]

/-- What follows an addition, if all of it fitted. -/
def continued (added : Bytes × Bool) (next : Bytes → Bytes × Bool) : Bytes × Bool :=
  if !added.2 then (added.1, false) else next added.1

/-- Nothing that comes after a cut has a part in the text. -/
theorem continued_addPiece (h : out.length ≤ Limits.text) {piece rest : Bytes}
    {next : Bytes → Bytes × Bool}
    (hnext : (out ++ piece).length ≤ Limits.text →
      next (out ++ piece) = fitted (out ++ piece ++ rest)) :
    continued (addPiece out piece) next = fitted (out ++ piece ++ rest) := by
  rw [addPiece_eq h]
  rcases Nat.lt_or_ge Limits.text (out ++ piece).length with hlt | hle
  · rw [fitted_append hlt, fitted_of_lt hlt]
    rfl
  · rw [fitted_of_le hle]
    exact hnext hle

theorem implodeFrom_cons (glue out s : Bytes) (rest : List Bytes) :
    implodeFrom glue out (s :: rest) =
      continued (addPiece out glue) fun out =>
        continued (addPiece out s) fun out => implodeFrom glue out rest :=
  rfl

/-- Adding strings one by one is cutting their concatenation once. -/
theorem implodeFrom_eq (glue : Bytes) (h : out.length ≤ Limits.text) (l : List Bytes) :
    implodeFrom glue out l = fitted (out ++ l.flatMap (glue ++ ·)) := by
  induction l generalizing out with
  | nil => simp [implodeFrom, fitted_of_le h]
  | cons s rest ih =>
    have hpieces : out ++ (s :: rest).flatMap (glue ++ ·) =
        out ++ glue ++ (s ++ rest.flatMap (glue ++ ·)) := by
      simp
    rw [hpieces, implodeFrom_cons]
    apply continued_addPiece h
    intro hglue
    rw [← List.append_assoc]
    apply continued_addPiece hglue
    intro hstring
    exact ih hstring

/-- The strings of a buffer are joined and then cut. -/
theorem implode_eq (b : Buffer) (glue : Bytes) :
    b.implode glue = fitted (glue.intercalate b.live) := by
  have hempty : ([] : Bytes).length ≤ Limits.text := Nat.zero_le _
  unfold implode
  cases b.live with
  | nil => exact (fitted_of_le hempty).symm
  | cons s rest =>
    rw [Bytes.intercalate_cons]
    change continued (addPiece [] s) (implodeFrom glue · rest) = fitted ([] ++ s ++ _)
    apply continued_addPiece hempty
    intro hstring
    exact implodeFrom_eq glue hstring rest

end Buffer

/-- **Joining gives the front of the joined strings.** A program joins the strings of one of its
buffers by a glue. It gets the first 1023 bytes of the strings with the glue between them, and there is
a caution if this is not all, and only then. Nothing else changes. -/
theorem buffer_joined {a : Activation} {handle : Int} {b : Buffer} (h : a.buffer? handle = some b)
    (glue : Bytes) :
    Builtins.implodeBuffer handle glue a = .ok (some ((glue.intercalate b.live).take 1023))
      (if 1023 < (glue.intercalate b.live).length then
        a.mapWorld (·.caution "buf_implode: result truncated to 1023 bytes")
      else a) := by
  unfold Builtins.implodeBuffer
  rw [findBuffer_bind h]
  dsimp only
  rw [Buffer.implode_eq]
  rcases Nat.lt_or_ge 1023 (glue.intercalate b.live).length with hlt | hle
  · rw [Buffer.fitted_of_lt hlt, if_pos hlt]
    rfl
  · rw [Buffer.fitted_of_le hle, if_neg (Nat.not_lt.mpr hle), List.take_of_length_le hle]
    rfl

/-- A string that is as long as it may be. -/
def longest : Bytes := List.replicate 1023 0x78

theorem length_longest : longest.length = 1023 := List.length_replicate

/-- A buffer with a string that is as long as it may be, a hole, and an empty string. -/
def brimful : Buffer := ⟨#[some longest, none, some []]⟩

theorem intercalate_brimful (glue : Bytes) : glue.intercalate brimful.live = longest ++ glue := by
  simp [brimful, Buffer.live]

/-- The empty string behind the long one still fits, but a glue in front of it does not. -/
theorem buffer_joined_brimful :
    (loading.withBuffer 1 brimful).buffer? 1 = some brimful ∧
      Builtins.implodeBuffer 1 [] (loading.withBuffer 1 brimful) =
        .ok (some longest) (loading.withBuffer 1 brimful) ∧
      Builtins.implodeBuffer 1 [0x2c] (loading.withBuffer 1 brimful) =
        .ok (some longest) ((loading.withBuffer 1 brimful).mapWorld
          (·.caution "buf_implode: result truncated to 1023 bytes")) := by
  have hbrimful := Activation.buffer?_loading brimful
  have hfront (glue : Bytes) : (longest ++ glue).take 1023 = longest := by
    rw [← length_longest, List.take_left]
  have hbare := buffer_joined hbrimful []
  have hglued := buffer_joined hbrimful [0x2c]
  rw [intercalate_brimful, hfront, List.length_append, length_longest] at hbare hglued
  exact ⟨hbrimful, hbare, hglued⟩

end QuakeVm
