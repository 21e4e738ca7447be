import QuakeVm.Proofs.ProgramFile
import Mathlib.Algebra.GroupWithZero.Nat

/-!
# Which files are programs

The format of program files, without a look at how they are read. A file is a header and lumps, a lump
is records, a record is fields, and a field is a little-endian number: `fieldWidths` gives the widths of
the fields, `place` says where the header puts a lump, and `Inside` that the file holds all of it.

* Reading accepts the files that are well-formed (`WellFormed`) and no other ones. What is read has the
  numbers that stand in the file (`Program.ReadFrom`).
* A file that is refused is refused for the first thing that is wrong: a missing header, another
  version, a lump that is not inside.
* A written file that has lost bytes at its end is refused, and bytes behind a file do not matter.

## Why an empty lump at the end counts

The places of lumps lie one behind the other in a written file, also those of empty lumps. So the end
of the last lump is the end of the file, and a file that lost a byte does not reach it any more.
-/

namespace QuakeVm

/-! ## Numbers in a file -/

/-- The number that some bytes stand for, the least significant one first. -/
def littleEndian : Bytes → Nat
  | [] => 0
  | c :: rest => c.toNat + 0x100 * littleEndian rest

/-- The numbers of fields of given widths that lie one behind the other. -/
def fieldNumbers : List Nat → Bytes → List Nat
  | [], _ => []
  | w :: widths, s => littleEndian (s.take w) :: fieldNumbers widths (s.drop w)

/-- A number of 32 bits with its sign. -/
def signed (n : Nat) : Int := if n < 0x80000000 then n else (n : Int) - 0x100000000

/-- The first byte of a number is its least. -/
theorem littleEndian_take_succ (n : Nat) (s : Bytes) :
    littleEndian (s.take (n + 1)) =
      (Codec.byteAt s 0).toNat + 0x100 * littleEndian ((s.drop 1).take n) := by
  cases s with
  | nil => simp [littleEndian, Codec.byteAt]
  | cons c rest => rfl

/-- Bytes behind the fields have no part in their numbers. -/
theorem fieldNumbers_take {widths : List Nat} {n : Nat} (h : widths.sum ≤ n) (s : Bytes) :
    fieldNumbers widths (s.take n) = fieldNumbers widths s := by
  induction widths generalizing n s with
  | nil => rfl
  | cons w widths ih =>
    rw [List.sum_cons] at h
    rw [fieldNumbers, fieldNumbers, List.take_take, Nat.min_eq_left (by omega), List.drop_take,
      ih (by omega)]

theorem fieldNumbers_append (widths widths' : List Nat) (s : Bytes) :
    fieldNumbers (widths ++ widths') s =
      fieldNumbers widths s ++ fieldNumbers widths' (s.drop widths.sum) := by
  induction widths generalizing s with
  | nil => rfl
  | cons w widths ih =>
    rw [List.cons_append, fieldNumbers, fieldNumbers, ih, List.drop_drop, List.sum_cons,
      List.cons_append]

/-- A word as an integer is its number with a sign. -/
theorem toInt_eq_signed (w : Int32) : w.toInt = signed w.toUInt32.toNat := by
  have hcond : w.toInt = if 2 * w.toUInt32.toNat < 0x100000000 then (w.toUInt32.toNat : Int)
      else (w.toUInt32.toNat : Int) - 0x100000000 := BitVec.toInt_eq_toNat_cond w.toBitVec
  rw [hcond, signed]
  split <;> split <;> omega

namespace Codec

theorem byteAt_drop (s : Bytes) (i j : Nat) : byteAt (s.drop i) j = byteAt s (i + j) := by
  unfold byteAt
  simp only [List.getD_eq_getElem?_getD, List.getElem?_drop]

theorem toNat_byteAt (s : Bytes) (i : Nat) :
    (byteAt s i).toNat = littleEndian ((s.drop i).take 1) := by
  rw [littleEndian_take_succ, byteAt_drop]
  simp [littleEndian]

/-- A number with bits below the others is added to them. -/
theorem lor_shiftLeft {a n : Nat} (b : Nat) (h : a < 1 <<< n) : a ||| b <<< n = a + b <<< n := by
  rw [Nat.one_shiftLeft] at h
  rw [Nat.or_comm, ← Nat.shiftLeft_add_eq_or_of_lt h, Nat.add_comm]

/-- A word of two bytes is the number that its bytes spell. -/
theorem toNat_word16At (s : Bytes) (i : Nat) :
    (word16At s i).toNat = littleEndian ((s.drop i).take 2) := by
  have h₀ := (byteAt s i).toNat_lt
  have h₁ := (byteAt s (i + 1)).toNat_lt
  simp only [littleEndian_take_succ, List.drop_drop, byteAt_drop, List.take_zero, littleEndian,
    Nat.add_zero]
  unfold word16At
  simp only [UInt16.toNat_or, UInt16.toNat_shiftLeft, UInt8.toNat_toUInt16, UInt16.reduceToNat,
    Nat.reduceMod, Nat.reducePow]
  rw [Nat.mod_eq_of_lt (by rw [Nat.shiftLeft_eq]; omega), lor_shiftLeft _ h₀, Nat.shiftLeft_eq]
  omega

/-- A word of four bytes is the number that its bytes spell. -/
theorem toNat_word32At (s : Bytes) (i : Nat) :
    (word32At s i).toUInt32.toNat = littleEndian ((s.drop i).take 4) := by
  simp only [littleEndian_take_succ, List.drop_drop, byteAt_drop, List.take_zero, littleEndian,
    Nat.reduceAdd, Nat.add_assoc, Nat.add_zero]
  unfold word32At
  simp only [UInt32.toUInt32_toInt32, UInt32.toNat_or, UInt32.toNat_shiftLeft,
    UInt8.toNat_toUInt32, UInt32.reduceToNat, Nat.reduceMod, Nat.reducePow]
  have h₀ := (byteAt s i).toNat_lt
  have h₁ := (byteAt s (i + 1)).toNat_lt
  have h₂ := (byteAt s (i + 2)).toNat_lt
  have h₃ := (byteAt s (i + 3)).toNat_lt
  generalize (byteAt s i).toNat = b₀ at *
  generalize (byteAt s (i + 1)).toNat = b₁ at *
  generalize (byteAt s (i + 2)).toNat = b₂ at *
  generalize (byteAt s (i + 3)).toNat = b₃ at *
  -- Byte by byte, what is there already lies below the next byte.
  have hlow : b₀ ||| b₁ <<< 8 % 0x100000000 = b₀ + b₁ * 0x100 := by
    rw [Nat.mod_eq_of_lt (by rw [Nat.shiftLeft_eq]; omega), lor_shiftLeft _ h₀, Nat.shiftLeft_eq]
  have hmiddle : b₀ + b₁ * 0x100 ||| b₂ <<< 16 % 0x100000000 =
      b₀ + b₁ * 0x100 + b₂ * 0x10000 := by
    rw [Nat.mod_eq_of_lt (by rw [Nat.shiftLeft_eq]; omega),
      lor_shiftLeft _ (by rw [Nat.one_shiftLeft]; omega), Nat.shiftLeft_eq]
  have hhigh : b₀ + b₁ * 0x100 + b₂ * 0x10000 ||| b₃ <<< 24 % 0x100000000 =
      b₀ + b₁ * 0x100 + b₂ * 0x10000 + b₃ * 0x1000000 := by
    rw [Nat.mod_eq_of_lt (by rw [Nat.shiftLeft_eq]; omega),
      lor_shiftLeft _ (by rw [Nat.one_shiftLeft]; omega), Nat.shiftLeft_eq]
  rw [hlow, hmiddle, hhigh]
  omega

/-! ## Records as numbers -/

/-- The widths of the fields of a record. -/
def fieldWidths : Lump → List Nat
  | .header => List.replicate 15 4
  | .statements => [2, 2, 2, 2]
  | .globaldefs => [2, 2, 4]
  | .fielddefs => [2, 2, 4]
  | .functions => List.replicate 7 4 ++ List.replicate 8 1
  | .strings => [1]
  | .globals => [4]

end Codec

/-- The fields of a statement. -/
def Statement.numbers (s : Statement) : List Nat := [s.op.toNat, s.a.toNat, s.b.toNat, s.c.toNat]

/-- The fields of a definition. -/
def Definition.numbers (d : Definition) : List Nat :=
  [d.type.toNat, d.offset.toNat, d.name.toUInt32.toNat]

/-- The fields of a function. -/
def Function.numbers (f : Function) : List Nat :=
  [f.firstStatement, f.parmStart, f.locals, f.profile, f.name, f.file, f.parameters].map
      (fun w => w.toUInt32.toNat) ++
    f.parameterSizes.toList.map fun c => c.toNat

/-- The field of a global. -/
def wordNumbers (w : Int32) : List Nat := [w.toUInt32.toNat]

/-- The fields of all records of a lump. -/
def Program.numbers (p : Program) : Lump → List Nat
  | .header => p.header.toList.map fun w => w.toUInt32.toNat
  | .statements => p.statements.toList.flatMap Statement.numbers
  | .globaldefs => p.globaldefs.toList.flatMap Definition.numbers
  | .fielddefs => p.fielddefs.toList.flatMap Definition.numbers
  | .functions => p.functions.toList.flatMap Function.numbers
  | .strings => p.strings.flatMap fun c => [c.toNat]
  | .globals => p.globals.toList.flatMap wordNumbers

namespace Codec

/-- The numbers of a statement are those in its fields, as the format has them. -/
theorem numbers_statementOf (s : Bytes) :
    (statementOf s).numbers = fieldNumbers (fieldWidths .statements) s := by
  simp only [Statement.numbers, statementOf, toNat_word16At, fieldWidths, fieldNumbers,
    List.drop_drop, List.drop_zero, Nat.reduceAdd]

theorem numbers_definitionOf (s : Bytes) :
    (definitionOf s).numbers = fieldNumbers [2, 2, 4] s := by
  simp only [Definition.numbers, definitionOf, toNat_word16At, toNat_word32At, fieldNumbers,
    List.drop_drop, List.drop_zero, Nat.reduceAdd]

/-- The numbers of a function are those in its fields, as the format has them. -/
theorem numbers_functionOf (s : Bytes) :
    (functionOf s).numbers = fieldNumbers (fieldWidths .functions) s := by
  simp only [Function.numbers, functionOf, Vector.toList_ofFn, List.ofFn_succ, List.ofFn_zero,
    List.map_cons, List.map_nil, toNat_byteAt, toNat_word32At, fieldWidths, fieldNumbers,
    List.replicate, List.drop_drop, List.drop_zero, List.cons_append, List.nil_append, Nat.reduceAdd]
  rfl

/-- The numbers of a header are those in its fields, as the format has them. -/
theorem numbers_headerOf (s : Bytes) :
    ((headerOf s).toList.map fun w => w.toUInt32.toNat) = fieldNumbers (fieldWidths .header) s := by
  simp only [Header.toList, headerOf, List.map_cons, List.map_nil, toNat_word32At, fieldWidths,
    fieldNumbers, List.replicate, List.drop_drop, List.drop_zero, Nat.reduceAdd]

theorem numbers_word32At (s : Bytes) :
    wordNumbers (word32At s 0) = fieldNumbers (fieldWidths .globals) s := by
  rw [wordNumbers, toNat_word32At]
  rfl

/-- Records that lie one behind the other are read field by field. -/
theorem numbers_records {α : Type} {decode : Bytes → α} {numbers : α → List Nat}
    {widths : List Nat} (h : ∀ s, numbers (decode s) = fieldNumbers widths s) (n : Nat) (s : Bytes) :
    (records decode widths.sum n s).flatMap numbers =
      fieldNumbers (List.replicate n widths).flatten s := by
  induction n generalizing s with
  | zero => rfl
  | succ n ih =>
    rw [records, List.flatMap_cons, h, fieldNumbers_take (Nat.le_refl _), ih, List.replicate_succ,
      List.flatten_cons, fieldNumbers_append]

theorem numbers_bytes (s : Bytes) :
    (s.flatMap fun c => [c.toNat]) = fieldNumbers (List.replicate s.length [1]).flatten s := by
  induction s with
  | nil => rfl
  | cons c s ih =>
    rw [List.flatMap_cons, ih, List.length_cons, List.replicate_succ, List.flatten_cons]
    simp [fieldNumbers, littleEndian]

/-! ## Places -/

/-- A field of the header of a file. -/
def headerField (file : Bytes) (i : Nat) : Int := signed (littleEndian ((file.drop (4 * i)).take 4))

/-- Where a lump begins, and how many records it has. The header is a lump of one record. -/
def place (file : Bytes) : Lump → Int × Int
  | .header => (0, 1)
  | .statements => (headerField file 2, headerField file 3)
  | .globaldefs => (headerField file 4, headerField file 5)
  | .fielddefs => (headerField file 6, headerField file 7)
  | .functions => (headerField file 8, headerField file 9)
  | .strings => (headerField file 10, headerField file 11)
  | .globals => (headerField file 12, headerField file 13)

/-- A lump has a place, and the file holds all of it. -/
def Inside (file : Bytes) (l : Lump) : Prop :=
  0 ≤ (place file l).1 ∧ 0 ≤ (place file l).2 ∧
    (place file l).1 + (place file l).2 * recordSize l ≤ file.length

instance (file : Bytes) (l : Lump) : Decidable (Inside file l) :=
  inferInstanceAs (Decidable (_ ∧ _ ∧ _))

/-- The bytes of a lump. -/
def slice (file : Bytes) (l : Lump) : Bytes :=
  (file.drop (place file l).1.toNat).take ((place file l).2.toNat * recordSize l)

/-- The lumps behind the header, in the order in which they are read. -/
def lumps : List Lump := [.statements, .globaldefs, .fielddefs, .functions, .strings, .globals]

/-- A file that holds a program. -/
structure WellFormed (file : Bytes) : Prop where
  length_ge : 60 ≤ file.length
  version_eq : headerField file 0 = 6
  inside : ∀ l ∈ lumps, Inside file l

/-- A lump lies inside its file when its start and count are not negative and its end is no farther
than that of the file. -/
theorem inside_iff {file : Bytes} {l : Lump} :
    Inside file l ↔ ∃ start count : Nat, place file l = (↑start, ↑count) ∧
      start + count * recordSize l ≤ file.length := by
  constructor
  · rintro ⟨hstart, hcount, hend⟩
    obtain ⟨start, hs⟩ := Int.eq_ofNat_of_zero_le hstart
    obtain ⟨count, hc⟩ := Int.eq_ofNat_of_zero_le hcount
    rw [hs, hc] at hend
    exact ⟨start, count, Prod.ext hs hc, by exact_mod_cast hend⟩
  · rintro ⟨start, count, hplace, hend⟩
    unfold Inside
    rw [hplace]
    refine ⟨Int.natCast_nonneg _, Int.natCast_nonneg _, ?_⟩
    show (start : Int) + count * recordSize l ≤ file.length
    exact_mod_cast hend

/-- A lump inside the file has all its records. -/
theorem length_slice {file : Bytes} {l : Lump} (h : Inside file l) :
    (slice file l).length = (place file l).2.toNat * recordSize l := by
  obtain ⟨start, count, hplace, hend⟩ := inside_iff.mp h
  rw [slice, hplace, Int.toNat_natCast, Int.toNat_natCast, List.length_take, List.length_drop]
  omega

/-- A field of the header as it is read. -/
theorem toInt_word32At_header (file : Bytes) {i : Nat} (hi : i < 15) :
    (word32At (file.take 60) (4 * i)).toInt = headerField file i := by
  rw [toInt_eq_signed, toNat_word32At, List.drop_take, List.take_take,
    Nat.min_eq_left (by omega), headerField]

section Lumps

variable {file : Bytes} {l : Lump} {start count : Int32}

theorem lump_of_inside (hplace : place file l = (start.toInt, count.toInt)) (h : Inside file l) :
    lump file l start count = .ok (slice file l) := by
  obtain ⟨m, n, hmn, hend⟩ := inside_iff.mp h
  obtain ⟨hm, hn⟩ := Prod.mk.inj (hplace.symm.trans hmn)
  have hsigns : ¬ (start < 0 || count < 0) = true := by
    simp only [Bool.or_eq_true, decide_eq_true_eq, Int32.lt_iff_toInt_lt, Int32.toInt_zero]
    omega
  unfold lump
  rw [if_neg hsigns, slice, hmn, hm, hn, Int.toNat_natCast, Int.toNat_natCast]
  exact if_neg (Nat.not_lt.mpr hend)

/-- A lump that is not inside the file is reported as truncated. -/
theorem lump_of_not_inside (hplace : place file l = (start.toInt, count.toInt))
    (h : ¬ Inside file l) : lump file l start count = .error (.truncated l) := by
  unfold lump
  split
  · rfl
  next hsigns =>
    simp only [Bool.or_eq_true, decide_eq_true_eq, Int32.lt_iff_toInt_lt, Int32.toInt_zero,
      not_or, Int.not_lt] at hsigns
    obtain ⟨hstart, hcount⟩ := hsigns
    have hend : ¬ start.toInt.toNat + count.toInt.toNat * recordSize l ≤ file.length := by
      intro hend
      refine h (inside_iff.mpr ⟨_, _, ?_, hend⟩)
      rw [hplace, Int.toNat_of_nonneg hstart, Int.toNat_of_nonneg hcount]
    exact if_pos (Nat.not_le.mp hend)

theorem table_of_inside {α : Type} (decode : Bytes → α)
    (hplace : place file l = (start.toInt, count.toInt)) (h : Inside file l) :
    table file l decode start count =
      .ok (records decode (recordSize l) (place file l).2.toNat (slice file l)).toArray := by
  unfold table
  rw [lump_of_inside hplace h, hplace]

theorem table_of_not_inside {α : Type} (decode : Bytes → α)
    (hplace : place file l = (start.toInt, count.toInt)) (h : ¬ Inside file l) :
    table file l decode start count = .error (.truncated l) := by
  unfold table
  rw [lump_of_not_inside hplace h]

end Lumps

end Codec

namespace Program

open Codec

/-! ## Reading -/

/-- All numbers of a program stand in the lumps of a file. -/
def ReadFrom (p : Program) (file : Bytes) : Prop :=
  ∀ l, p.numbers l =
    fieldNumbers (List.replicate (place file l).2.toNat (fieldWidths l)).flatten (slice file l)

/-- What the lumps of a file are read as. -/
def decoded (file : Bytes) : Program :=
  let table {α : Type} (l : Lump) (decode : Bytes → α) : Array α :=
    (records decode (recordSize l) (place file l).2.toNat (slice file l)).toArray
  { header := headerOf (file.take 60)
    statements := table .statements statementOf
    globaldefs := table .globaldefs definitionOf
    fielddefs := table .fielddefs definitionOf
    functions := table .functions functionOf
    strings := slice file .strings
    globals := table .globals (word32At · 0) }

theorem readFrom_decoded {file : Bytes} (h : Inside file .strings) : (decoded file).ReadFrom file := by
  intro l
  cases l with
  | header =>
    show ((headerOf (file.take 60)).toList.map fun w => w.toUInt32.toNat) = _
    rw [numbers_headerOf]
    rfl
  | statements => exact numbers_records numbers_statementOf _ _
  | globaldefs => exact numbers_records numbers_definitionOf _ _
  | fielddefs => exact numbers_records numbers_definitionOf _ _
  | functions => exact numbers_records numbers_functionOf _ _
  | strings =>
    show ((slice file .strings).flatMap fun c => [c.toNat]) = _
    rw [numbers_bytes, length_slice h, recordSize, Nat.mul_one]
    rfl
  | globals => exact numbers_records numbers_word32At _ _

/-- The places of the lumps are those that the header says. -/
theorem place_eq (file : Bytes) :
    place file .statements = ((decoded file).header.statementsAt.toInt,
      (decoded file).header.statements.toInt) ∧
    place file .globaldefs = ((decoded file).header.globaldefsAt.toInt,
      (decoded file).header.globaldefs.toInt) ∧
    place file .fielddefs = ((decoded file).header.fielddefsAt.toInt,
      (decoded file).header.fielddefs.toInt) ∧
    place file .functions = ((decoded file).header.functionsAt.toInt,
      (decoded file).header.functions.toInt) ∧
    place file .strings = ((decoded file).header.stringsAt.toInt,
      (decoded file).header.strings.toInt) ∧
    place file .globals = ((decoded file).header.globalsAt.toInt,
      (decoded file).header.globals.toInt) := by
  have hfield {i : Nat} (hi : i < 15) := (toInt_word32At_header file hi).symm
  exact ⟨Prod.ext (hfield (i := 2) (by omega)) (hfield (i := 3) (by omega)),
    Prod.ext (hfield (i := 4) (by omega)) (hfield (i := 5) (by omega)),
    Prod.ext (hfield (i := 6) (by omega)) (hfield (i := 7) (by omega)),
    Prod.ext (hfield (i := 8) (by omega)) (hfield (i := 9) (by omega)),
    Prod.ext (hfield (i := 10) (by omega)) (hfield (i := 11) (by omega)),
    Prod.ext (hfield (i := 12) (by omega)) (hfield (i := 13) (by omega))⟩

theorem version_eq_iff (file : Bytes) :
    (decoded file).header.version = programVersion ↔ headerField file 0 = 6 := by
  rw [← Int32.toInt_inj]
  have hfield : (decoded file).header.version.toInt = headerField file 0 :=
    toInt_word32At_header file (i := 0) (by omega)
  rw [hfield]
  rfl

theorem ofBytes_of_short {file : Bytes} (h : file.length < 60) :
    ofBytes file = .error (.truncated .header) := by
  unfold ofBytes
  dsimp only
  rw [if_pos (show file.length < recordSize .header from h)]
  rfl

/-- After the length of the header the version is what is checked first. -/
theorem ofBytes_of_version {file : Bytes} (h : 60 ≤ file.length)
    (hversion : headerField file 0 ≠ 6) :
    ofBytes file = .error (.badVersion 6 (headerField file 0)) := by
  have hne : ((headerOf (file.take (recordSize .header))).version != programVersion) = true := by
    rw [bne_iff_ne]
    exact fun heq => hversion ((version_eq_iff file).mp heq)
  have hlength : ¬ file.length < recordSize .header := Nat.not_lt.mpr h
  have hfield := toInt_word32At_header file (i := 0) (by omega)
  unfold ofBytes
  dsimp only
  rw [if_neg hlength, if_pos hne, ← hfield]
  rfl

/-- A well-formed file is decoded. -/
theorem ofBytes_of_wellFormed {file : Bytes} (h : WellFormed file) :
    ofBytes file = .ok (decoded file) := by
  obtain ⟨hstatements, hglobaldefs, hfielddefs, hfunctions, hstrings, hglobals⟩ := place_eq file
  have hinside := h.inside
  simp only [lumps, List.forall_mem_cons] at hinside
  obtain ⟨h₁, h₂, h₃, h₄, h₅, h₆, -⟩ := hinside
  exact ofBytes_of_tables h.length_ge rfl ((version_eq_iff file).mpr h.version_eq)
    (table_of_inside _ hstatements h₁) (table_of_inside _ hglobaldefs h₂)
    (table_of_inside _ hfielddefs h₃) (table_of_inside _ hfunctions h₄)
    (lump_of_inside hstrings h₅) (table_of_inside _ hglobals h₆)

/-- The first lump that is not inside. -/
def outside? (file : Bytes) (ls : List Lump) : Option Lump := ls.find? fun l => ¬ Inside file l

/-- Reading a lump fails where the lump is not inside; what follows finds the next such lump. -/
theorem bind_of_outside {α β : Type} {file : Bytes} {l l' : Lump} {ls : List Lump}
    {x : Except Cause α} {y : α} {k : α → Except Cause β}
    (hinside : Inside file l → x = .ok y) (houtside : ¬ Inside file l → x = .error (.truncated l))
    (h : outside? file (l :: ls) = some l')
    (hk : outside? file ls = some l' → k y = .error (.truncated l')) :
    (x >>= k) = .error (.truncated l') := by
  unfold outside? at h hk
  by_cases hl : Inside file l
  · rw [List.find?_cons_of_neg (by simpa using hl)] at h
    rw [hinside hl]
    exact hk h
  · rw [List.find?_cons_of_pos (by simpa using hl)] at h
    obtain rfl := Option.some.inj h
    rw [houtside hl]
    rfl

/-- The lump that is reported is the first that is not inside. -/
theorem ofBytes_of_outside {file : Bytes} {l : Lump} (h : 60 ≤ file.length)
    (hversion : headerField file 0 = 6) (hl : outside? file lumps = some l) :
    ofBytes file = .error (.truncated l) := by
  obtain ⟨hstatements, hglobaldefs, hfielddefs, hfunctions, hstrings, hglobals⟩ := place_eq file
  have heq : ¬ ((headerOf (file.take (recordSize .header))).version != programVersion) = true := by
    rw [bne_iff_ne, not_not]
    exact (version_eq_iff file).mpr hversion
  have hlength : ¬ file.length < recordSize .header := Nat.not_lt.mpr h
  unfold ofBytes
  dsimp only
  rw [if_neg hlength, if_neg heq]
  refine bind_of_outside (table_of_inside _ hstatements) (table_of_not_inside _ hstatements) hl
    fun hl => ?_
  refine bind_of_outside (table_of_inside _ hglobaldefs) (table_of_not_inside _ hglobaldefs) hl
    fun hl => ?_
  refine bind_of_outside (table_of_inside _ hfielddefs) (table_of_not_inside _ hfielddefs) hl
    fun hl => ?_
  refine bind_of_outside (table_of_inside _ hfunctions) (table_of_not_inside _ hfunctions) hl
    fun hl => ?_
  refine bind_of_outside (lump_of_inside hstrings) (lump_of_not_inside hstrings) hl fun hl => ?_
  exact bind_of_outside (table_of_inside _ hglobals) (table_of_not_inside _ hglobals) hl nofun

/-- Reading a file ends in one of four ways. -/
theorem ofBytes_cases (file : Bytes) :
    (file.length < 60 ∧ ofBytes file = .error (.truncated .header)) ∨
    (60 ≤ file.length ∧ headerField file 0 ≠ 6 ∧
      ofBytes file = .error (.badVersion 6 (headerField file 0))) ∨
    (60 ≤ file.length ∧ headerField file 0 = 6 ∧
      ∃ l, outside? file lumps = some l ∧ ofBytes file = .error (.truncated l)) ∨
    (WellFormed file ∧ ofBytes file = .ok (decoded file)) := by
  by_cases hlength : file.length < 60
  · exact .inl ⟨hlength, ofBytes_of_short hlength⟩
  have hlength : 60 ≤ file.length := Nat.not_lt.mp hlength
  by_cases hversion : headerField file 0 = 6
  · cases hl : outside? file lumps with
    | some l =>
      exact .inr (.inr (.inl ⟨hlength, hversion, l, rfl, ofBytes_of_outside hlength hversion hl⟩))
    | none =>
      have hinside : ∀ l ∈ lumps, Inside file l := by
        intro l hmem
        simpa using List.find?_eq_none.mp hl l hmem
      have hfile : WellFormed file := ⟨hlength, hversion, hinside⟩
      exact .inr (.inr (.inr ⟨hfile, ofBytes_of_wellFormed hfile⟩))
  · exact .inr (.inl ⟨hlength, hversion, ofBytes_of_version hlength hversion⟩)

/-- Only well-formed files are decoded. -/
theorem wellFormed_of_ok {file : Bytes} {p : Program} (h : ofBytes file = .ok p) :
    WellFormed file ∧ p = decoded file := by
  rcases ofBytes_cases file with ⟨-, he⟩ | ⟨-, -, he⟩ | ⟨-, -, l, -, he⟩ | ⟨hfile, he⟩ <;>
    rw [he] at h <;> cases h
  exact ⟨hfile, rfl⟩

theorem signed_lt {n : Nat} (h : n < 0x100000000) : signed n < 0x80000000 := by
  unfold signed
  split <;> omega

theorem headerField_lt (file : Bytes) {i : Nat} (hi : i < 15) :
    headerField file i < 0x80000000 := by
  rw [← toInt_word32At_header file hi, toInt_eq_signed]
  exact signed_lt (UInt32.toNat_lt _)

/-- Header fields are small enough for the end of a lump to be a number of 64 bits. -/
theorem place_end_lt (file : Bytes) (l : Lump) :
    (place file l).1.toNat + (place file l).2.toNat * recordSize l < 0x10000000000000000 := by
  have hbounds : (place file l).1 < 0x80000000 ∧ (place file l).2 < 0x80000000 := by
    cases l with
    | header => exact ⟨show (0 : Int) < _ by decide, show (1 : Int) < _ by decide⟩
    | _ => exact ⟨headerField_lt file (by omega), headerField_lt file (by omega)⟩
  have hsize : recordSize l ≤ 60 := by cases l <;> decide
  have hproduct : (place file l).2.toNat * recordSize l ≤ 0x80000000 * 60 :=
    Nat.mul_le_mul (by omega) hsize
  omega

/-- **Reading accepts the well-formed files and no other ones.** What is read has the numbers that
stand in the lumps of the file. A file that is refused has no complete header, or else another version,
or else a lump that is not inside, and the first such lump is named. The end of a lump is a number of
64 bits whatever stands in the header. -/
theorem accepted_iff_wellFormed (file : Bytes) :
    ((∃ p, ofBytes file = .ok p) ↔ WellFormed file) ∧
    (∀ p, ofBytes file = .ok p → p.ReadFrom file) ∧
    (∀ e, ofBytes file = .error e →
      (file.length < 60 ∧ e = .truncated .header) ∨
      (60 ≤ file.length ∧ headerField file 0 ≠ 6 ∧ e = .badVersion 6 (headerField file 0)) ∨
      (60 ≤ file.length ∧ headerField file 0 = 6 ∧
        ∃ l, lumps.find? (fun l => ¬ Inside file l) = some l ∧ e = .truncated l)) ∧
    ∀ l, (place file l).1.toNat + (place file l).2.toNat * recordSize l < 0x10000000000000000 := by
  refine ⟨⟨?_, ?_⟩, ?_, ?_, place_end_lt file⟩
  · rintro ⟨p, hp⟩
    exact (wellFormed_of_ok hp).1
  · intro hfile
    exact ⟨_, ofBytes_of_wellFormed hfile⟩
  · intro p hp
    obtain ⟨hfile, rfl⟩ := wellFormed_of_ok hp
    exact readFrom_decoded (hfile.inside _ (by simp [lumps]))
  · intro e he
    rcases ofBytes_cases file with ⟨hlength, h⟩ | ⟨hlength, hversion, h⟩ |
      ⟨hlength, hversion, l, hl, h⟩ | ⟨-, h⟩ <;> rw [he] at h <;> cases h
    · exact .inl ⟨hlength, rfl⟩
    · exact .inr (.inl ⟨hlength, hversion, rfl⟩)
    · exact .inr (.inr ⟨hlength, hversion, l, hl, rfl⟩)

/-- A file whose strings are the last bytes of its header, and whose globals lie behind its end but
are none. -/
def overlaid : Bytes :=
  headerBytes { version := 6, stringsAt := 52, strings := 8, globalsAt := 60, entityFields := -1 }

theorem accepted_iff_wellFormed_overlaid :
    ∃ p, ofBytes overlaid = .ok p ∧ p.ReadFrom overlaid ∧
      p.numbers .strings = [0, 0, 0, 0, 0xff, 0xff, 0xff, 0xff] := by
  obtain ⟨p, hp⟩ := (accepted_iff_wellFormed overlaid).1.mpr ⟨by decide, by decide, by decide⟩
  have hread := (accepted_iff_wellFormed overlaid).2.1 p hp
  exact ⟨p, hp, hread, (hread .strings).trans (by decide)⟩

/-! ## Files that lost their end -/

section Append

variable {s t : Bytes}

/-- Bytes behind a file do not change its header. -/
theorem headerField_append (h : 60 ≤ s.length) {i : Nat} (hi : i < 15) :
    headerField (s ++ t) i = headerField s i := by
  unfold headerField
  rw [List.drop_append_of_le_length (by omega),
    List.take_append_of_le_length (by rw [List.length_drop]; omega)]

theorem place_append (h : 60 ≤ s.length) (l : Lump) : place (s ++ t) l = place s l := by
  cases l with
  | header => rfl
  | _ => exact Prod.ext (headerField_append h (by omega)) (headerField_append h (by omega))

/-- Bytes behind a file do not push a lump out of it. -/
theorem inside_append (h : 60 ≤ s.length) {l : Lump} (hl : Inside s l) : Inside (s ++ t) l := by
  obtain ⟨start, count, hplace, hend⟩ := inside_iff.mp hl
  refine inside_iff.mpr ⟨start, count, (place_append h l).trans hplace, ?_⟩
  rw [List.length_append]
  omega

/-- Bytes behind a file do not change a lump inside it. -/
theorem slice_append (h : 60 ≤ s.length) {l : Lump} (hl : Inside s l) :
    slice (s ++ t) l = slice s l := by
  obtain ⟨start, count, hplace, hend⟩ := inside_iff.mp hl
  unfold slice
  rw [place_append h, hplace, Int.toNat_natCast, Int.toNat_natCast,
    List.drop_append_of_le_length (by omega),
    List.take_append_of_le_length (by rw [List.length_drop]; omega)]

/-- Bytes behind a well-formed file do not matter. -/
theorem ofBytes_append (h : WellFormed s) : ofBytes (s ++ t) = ofBytes s := by
  have hlength := h.length_ge
  have hfile : WellFormed (s ++ t) :=
    ⟨by rw [List.length_append]; omega, (headerField_append hlength (by omega)).trans h.version_eq,
      fun l hl => inside_append hlength (h.inside l hl)⟩
  have hinside := h.inside
  simp only [lumps, List.forall_mem_cons] at hinside
  obtain ⟨h₁, h₂, h₃, h₄, h₅, h₆, -⟩ := hinside
  rw [ofBytes_of_wellFormed h, ofBytes_of_wellFormed hfile]
  unfold decoded
  simp only [place_append hlength, slice_append hlength h₁, slice_append hlength h₂,
    slice_append hlength h₃, slice_append hlength h₄, slice_append hlength h₅,
    slice_append hlength h₆, List.take_append_of_le_length hlength]

end Append

theorem length_lumpBytes (p : Program) :
    p.lumpBytes.length = p.statements.size * recordSize .statements +
      p.globaldefs.size * recordSize .globaldefs + p.fielddefs.size * recordSize .fielddefs +
      p.functions.size * recordSize .functions + p.strings.length +
      p.globals.size * recordSize .globals := by
  unfold lumpBytes
  simp only [List.length_append, codes_statements.length_flatMap, codes_globaldefs.length_flatMap,
    codes_functions.length_flatMap, codes_globals.length_flatMap, Array.length_toList]
  rfl

/-- The last lump of a written file ends with the file, whether it has records or not. -/
theorem end_globals {p : Program} (hp : p.Fits) {file : Bytes}
    (hfile : file = headerBytes p.fileHeader ++ p.lumpBytes) :
    (place file .globals).1 + (place file .globals).2 * recordSize .globals = file.length := by
  have hheader : (decoded file).header = p.fileHeader := by
    show headerOf (file.take (recordSize .header)) = _
    rw [hfile, List.take_left' (length_headerBytes _), headerOf_headerBytes]
  have hlength := p.length_lumpBytes
  unfold Fits counts at hp
  simp only [places, List.forall_mem_cons] at hp
  obtain ⟨-, -, -, -, -, hp₆, -⟩ := hp
  obtain ⟨-, -, -, -, -, hplace⟩ := place_eq file
  rw [hheader] at hplace
  have hstart := toInt_ofNat hp₆.1
  have hcount := toInt_ofNat hp₆.2
  rw [hplace]
  show (Int32.ofNat _).toInt + (Int32.ofNat _).toInt * _ = _
  rw [hstart, hcount, hfile, List.length_append, length_headerBytes, hlength]
  push_cast
  simp only [recordSize]
  omega

/-- A written file that lost bytes at its end is not well-formed any more. -/
theorem not_wellFormed_of_cut {p : Program} (hp : p.Fits) {s t : Bytes}
    (hfile : s ++ t = headerBytes p.fileHeader ++ p.lumpBytes) (ht : t ≠ []) : ¬ WellFormed s := by
  intro h
  have hend := end_globals hp hfile
  rw [place_append h.length_ge] at hend
  obtain ⟨-, -, hinside⟩ := h.inside .globals (by simp [lumps])
  have hlost := List.length_pos_iff.mpr ht
  rw [hend, List.length_append] at hinside
  omega

/-- A cut behind the header leaves the version. -/
theorem version_of_cut {p : Program} {s t : Bytes} (h : 60 ≤ s.length)
    (hfile : s ++ t = headerBytes p.fileHeader ++ p.lumpBytes) : headerField s 0 = 6 := by
  rw [← headerField_append h (t := t) (by omega), ← version_eq_iff]
  show (headerOf ((s ++ t).take (recordSize .header))).version = _
  rw [hfile, List.take_left' (length_headerBytes _), headerOf_headerBytes]
  rfl

/-- **A written file that lost its end is refused as truncated, and bytes behind a file do not
matter.** -/
theorem truncation_detected :
    (∀ (p : Program) (b : Bytes), p.toBytes = .ok b → ∀ s, s <+: b → s ≠ b →
      ∃ l, ofBytes s = .error (.truncated l)) ∧
    ∀ (s t : Bytes) (q : Program), ofBytes s = .ok q → ofBytes (s ++ t) = .ok q := by
  refine ⟨?_, ?_⟩
  · intro p b hb s hs hne
    obtain ⟨hp, hfile⟩ := toBytes_eq_ok hb
    obtain ⟨t, rfl⟩ := hs
    have ht : t ≠ [] := by
      rintro rfl
      exact hne (List.append_nil s).symm
    rcases ofBytes_cases s with ⟨-, h⟩ | ⟨hlength, hversion, -⟩ | ⟨-, -, l, -, h⟩ | ⟨hwf, -⟩
    · exact ⟨_, h⟩
    · exact absurd (version_of_cut hlength hfile) hversion
    · exact ⟨l, h⟩
    · exact absurd hwf (not_wellFormed_of_cut hp hfile ht)
  · intro s t q hq
    rw [ofBytes_append (wellFormed_of_ok hq).1, hq]

/-- A program with records in its first lump only. -/
def bare : Program := { statements := #[{}] }

theorem truncation_detected_bare :
    ∃ b, bare.toBytes = .ok b ∧ b.length = 68 ∧ ∃ l, ofBytes (b.take 67) = .error (.truncated l) := by
  have hb : bare.toBytes = .ok (headerBytes bare.fileHeader ++ bare.lumpBytes) := rfl
  refine ⟨_, hb, by decide, truncation_detected.1 bare _ hb _ (List.take_prefix _ _) ?_⟩
  intro h
  exact absurd (congrArg List.length h) (by decide)

end Program

end QuakeVm
