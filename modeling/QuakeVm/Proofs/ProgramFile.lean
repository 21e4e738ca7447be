import QuakeVm.Program.Codec
import Mathlib.Data.List.Basic

/-!
# Reading written program files

A program that has been written can be read back, and what is read is written as the same file.

## From words to files

* **Words** and **records** have one form each: `Codes` says that the records of a lump have the size
  that belongs to the lump, and that reading takes them back.
* **Lumps** are found by their places. `HoldsAt` says what a file holds from a place on; it can be
  split, and so a file of lumps one behind the other is taken apart in the order in which `places`
  counts.
* **Files.** `toBytes_eq_ok` says which file a program has; its header is `fileHeader`.
-/

namespace QuakeVm

namespace Codec

/-! ## Words -/

/-- A word of two bytes is put together again from its bytes. -/
theorem join_word16 (w : UInt16) :
    w.toUInt8.toUInt16 ||| (w >>> 8).toUInt8.toUInt16 <<< 8 = w := by
  apply UInt16.toBitVec_inj.mp
  simp only [UInt16.toBitVec_or, UInt16.toBitVec_shiftLeft, UInt8.toBitVec_toUInt16,
    UInt16.toBitVec_toUInt8, UInt16.toBitVec_shiftRight]
  -- Bit by bit: a bit comes from the byte that its number falls into.
  ext i hi
  simp only [UInt16.toBitVec_ofNat, BitVec.ofNat_eq_ofNat, BitVec.reduceMod,
    BitVec.ushiftRight_eq', BitVec.toNat_ofNat, Nat.reducePow, Nat.reduceMod,
    BitVec.shiftLeft_eq', BitVec.getElem_or, BitVec.getElem_setWidth, BitVec.getLsbD_setWidth,
    BitVec.getElem_shiftLeft, BitVec.getLsbD_ushiftRight]
  grind

/-- A word of four bytes is put together again from its bytes. -/
theorem join_word32 (w : Int32) :
    (w.toUInt32.toUInt8.toUInt32 ||| (w.toUInt32 >>> 8).toUInt8.toUInt32 <<< 8 |||
      (w.toUInt32 >>> 16).toUInt8.toUInt32 <<< 16 |||
        (w.toUInt32 >>> 24).toUInt8.toUInt32 <<< 24).toInt32 = w := by
  suffices h : ∀ u : UInt32, u.toUInt8.toUInt32 ||| (u >>> 8).toUInt8.toUInt32 <<< 8 |||
      (u >>> 16).toUInt8.toUInt32 <<< 16 ||| (u >>> 24).toUInt8.toUInt32 <<< 24 = u by
    rw [h, Int32.toInt32_toUInt32]
  intro u
  apply UInt32.toBitVec_inj.mp
  simp only [UInt32.toBitVec_or, UInt32.toBitVec_shiftLeft, UInt8.toBitVec_toUInt32,
    UInt32.toBitVec_toUInt8, UInt32.toBitVec_shiftRight]
  -- Bit by bit: a bit comes from the byte that its number falls into.
  ext i hi
  simp only [UInt32.toBitVec_ofNat, BitVec.ofNat_eq_ofNat, BitVec.reduceMod,
    BitVec.ushiftRight_eq', BitVec.toNat_ofNat, Nat.reducePow, Nat.reduceMod,
    BitVec.shiftLeft_eq', BitVec.getElem_or, BitVec.getElem_setWidth, BitVec.getLsbD_setWidth,
    BitVec.getElem_shiftLeft, BitVec.getLsbD_ushiftRight]
  grind

theorem byteAt_append (s t : Bytes) (i : Nat) : byteAt (s ++ t) (s.length + i) = byteAt t i := by
  unfold byteAt
  simp only [List.getD_eq_getElem?_getD]
  rw [List.getElem?_append_right (Nat.le_add_right _ _), Nat.add_sub_cancel_left]

theorem word32At_append (s t : Bytes) (i : Nat) :
    word32At (s ++ t) (s.length + i) = word32At t i := by
  unfold word32At
  simp only [Nat.add_assoc, byteAt_append]

/-- Words that lie one behind the other are found at the multiples of four. -/
theorem word32At_flatMap (ws : List Int32) (t : Bytes) {i : Nat} {w : Int32}
    (h : ws[i]? = some w) : word32At (ws.flatMap word32 ++ t) (4 * i) = w := by
  induction ws generalizing i with
  | nil => simp at h
  | cons v ws ih =>
    rw [List.flatMap_cons, List.append_assoc]
    cases i with
    | zero =>
      cases h
      exact join_word32 w
    | succ i =>
      rw [Nat.mul_succ, Nat.add_comm]
      exact (word32At_append (word32 v) _ _).trans (ih h)

/-! ## Records -/

/-- Records of a lump have the size that belongs to it, and they can be read back. -/
structure Codes {α : Type} (l : Lump) (encode : α → Bytes) (decode : Bytes → α) : Prop where
  length_encode : ∀ x, (encode x).length = recordSize l
  decode_encode : ∀ x, decode (encode x) = x

/-- A statement is read back from its bytes. -/
theorem statementOf_statementBytes (s : Statement) : statementOf (statementBytes s) = s := by
  cases s
  simp only [statementOf, Statement.mk.injEq]
  exact ⟨join_word16 _, join_word16 _, join_word16 _, join_word16 _⟩

theorem definitionOf_definitionBytes (d : Definition) : definitionOf (definitionBytes d) = d := by
  cases d
  simp only [definitionOf, Definition.mk.injEq]
  exact ⟨join_word16 _, join_word16 _, join_word32 _⟩

/-- A function is seven words and the sizes of its parameters. -/
theorem functionBytes_eq (f : Function) :
    functionBytes f = [f.firstStatement, f.parmStart, f.locals, f.profile, f.name, f.file,
      f.parameters].flatMap word32 ++ f.parameterSizes.toList := rfl

theorem functionOf_functionBytes (f : Function) : functionOf (functionBytes f) = f := by
  rw [functionBytes_eq]
  obtain ⟨first, start, locals, profile, name, file, parameters, sizes⟩ := f
  simp only [functionOf, Function.mk.injEq]
  refine ⟨word32At_flatMap _ _ (i := 0) rfl, word32At_flatMap _ _ (i := 1) rfl,
    word32At_flatMap _ _ (i := 2) rfl, word32At_flatMap _ _ (i := 3) rfl,
    word32At_flatMap _ _ (i := 4) rfl, word32At_flatMap _ _ (i := 5) rfl,
    word32At_flatMap _ _ (i := 6) rfl, ?_⟩
  apply Vector.ext
  intro i hi
  rw [Vector.getElem_ofFn]
  refine (byteAt_append _ sizes.toList i).trans ?_
  unfold byteAt
  simp [hi]

/-- A header is read back from its bytes. -/
theorem headerOf_headerBytes (h : Header) : headerOf (headerBytes h) = h := by
  have hwords {i : Nat} {w : Int32} (hw : h.toList[i]? = some w) :
      word32At (headerBytes h) (4 * i) = w := by
    have hread := word32At_flatMap h.toList [] hw
    rwa [List.append_nil] at hread
  cases h
  simp only [headerOf, Header.mk.injEq]
  exact ⟨hwords (i := 0) rfl, hwords (i := 1) rfl, hwords (i := 2) rfl, hwords (i := 3) rfl,
    hwords (i := 4) rfl, hwords (i := 5) rfl, hwords (i := 6) rfl, hwords (i := 7) rfl,
    hwords (i := 8) rfl, hwords (i := 9) rfl, hwords (i := 10) rfl, hwords (i := 11) rfl,
    hwords (i := 12) rfl, hwords (i := 13) rfl, hwords (i := 14) rfl⟩

theorem codes_statements : Codes .statements statementBytes statementOf :=
  ⟨fun _ => rfl, statementOf_statementBytes⟩

theorem codes_globaldefs : Codes .globaldefs definitionBytes definitionOf :=
  ⟨fun _ => rfl, definitionOf_definitionBytes⟩

theorem codes_fielddefs : Codes .fielddefs definitionBytes definitionOf :=
  ⟨fun _ => rfl, definitionOf_definitionBytes⟩

theorem codes_functions : Codes .functions functionBytes functionOf :=
  ⟨fun f => by simp [functionBytes, word32, recordSize], functionOf_functionBytes⟩

theorem codes_globals : Codes .globals word32 (word32At · 0) :=
  ⟨fun _ => rfl, join_word32⟩

namespace Codes

variable {α : Type} {l : Lump} {encode : α → Bytes} {decode : Bytes → α}

theorem length_flatMap (h : Codes l encode decode) (xs : List α) :
    (xs.flatMap encode).length = xs.length * recordSize l := by
  induction xs with
  | nil => exact (Nat.zero_mul _).symm
  | cons x xs ih =>
    rw [List.flatMap_cons, List.length_append, h.length_encode, ih, List.length_cons,
      Nat.succ_mul, Nat.add_comm]

/-- Records that are written one after another are read back in their order. -/
theorem records_flatMap (h : Codes l encode decode) (xs : List α) :
    records decode (recordSize l) xs.length (xs.flatMap encode) = xs := by
  induction xs with
  | nil => rfl
  | cons x xs ih =>
    show decode _ :: records decode _ xs.length _ = _
    rw [List.flatMap_cons, List.take_left' (h.length_encode x), List.drop_left' (h.length_encode x),
      h.decode_encode, ih]

end Codes

/-! ## Lumps -/

/-- A file holds some bytes from a place on. -/
def HoldsAt (file : Bytes) (start : Nat) (s : Bytes) : Prop :=
  ∃ before behind, before.length = start ∧ file = before ++ s ++ behind

/-- What a file holds at a place it holds in parts, one behind the other. -/
theorem HoldsAt.split {file : Bytes} {start : Nat} {s t : Bytes} (h : HoldsAt file start (s ++ t)) :
    HoldsAt file start s ∧ HoldsAt file (start + s.length) t := by
  obtain ⟨before, behind, hlength, hfile⟩ := h
  refine ⟨⟨before, t ++ behind, hlength, ?_⟩, ⟨before ++ s, behind, ?_, ?_⟩⟩
  · rw [hfile]
    simp only [List.append_assoc]
  · rw [List.length_append, hlength]
  · rw [hfile]
    simp only [List.append_assoc]

/-- Behind a table of records stands what was written after it. -/
theorem Codes.split {α : Type} {l : Lump} {encode : α → Bytes} {decode : Bytes → α}
    (hc : Codes l encode decode) {file t : Bytes} {start : Nat} {xs : Array α}
    (h : HoldsAt file start (xs.toList.flatMap encode ++ t)) :
    HoldsAt file start (xs.toList.flatMap encode) ∧
      HoldsAt file (start + xs.size * recordSize l) t := by
  have hsplit := h.split
  rwa [hc.length_flatMap, Array.length_toList] at hsplit

theorem toInt_ofNat {n : Nat} (h : n < 0x80000000) : (Int32.ofNat n).toInt = n :=
  Int32.toInt_ofNat_of_lt h

/-- A lump that lies in the file is cut out where the header says. -/
theorem lump_of_holdsAt {file s : Bytes} {l : Lump} {start count : Nat} (h : HoldsAt file start s)
    (hs : s.length = count * recordSize l) (hstart : start < 0x80000000) (hcount : count < 0x80000000) :
    lump file l (.ofNat start) (.ofNat count) = .ok s := by
  obtain ⟨before, behind, hlength, hfile⟩ := h
  have hsigns : ¬ (Int32.ofNat start < 0 || Int32.ofNat count < 0) = true := by
    simp only [Bool.or_eq_true, decide_eq_true_eq, Int32.lt_iff_toInt_lt, toInt_ofNat hstart,
      toInt_ofNat hcount, Int32.toInt_zero]
    omega
  have hinside : ¬ file.length < start + count * recordSize l := by
    rw [hfile, ← hlength, ← hs]
    simp only [List.length_append]
    omega
  unfold lump
  rw [if_neg hsigns]
  simp only [toInt_ofNat hstart, toInt_ofNat hcount, Int.toNat_natCast]
  rw [if_neg hinside, hfile, List.append_assoc, List.drop_left' hlength, List.take_left' hs]

/-- A table that lies in the file is read back where the header says. -/
theorem Codes.table_of_holdsAt {α : Type} {l : Lump} {encode : α → Bytes} {decode : Bytes → α}
    (hc : Codes l encode decode) {file : Bytes} {start : Nat} {xs : Array α}
    (h : HoldsAt file start (xs.toList.flatMap encode)) (hstart : start < 0x80000000)
    (hcount : xs.size < 0x80000000) :
    table file l decode (.ofNat start) (.ofNat xs.size) = .ok xs := by
  have hs : (xs.toList.flatMap encode).length = xs.size * recordSize l := hc.length_flatMap _
  unfold table
  rw [lump_of_holdsAt h hs hstart hcount, toInt_ofNat hcount]
  dsimp only
  rw [Int.toNat_natCast, ← Array.length_toList, hc.records_flatMap]

end Codec

namespace Program

open Codec

/-! ## Written files -/

/-- The header of the file of a program: the lumps lie one behind the other. -/
def fileHeader (p : Program) : Header :=
  let globaldefsAt := recordSize .header + p.statements.size * recordSize .statements
  let fielddefsAt := globaldefsAt + p.globaldefs.size * recordSize .globaldefs
  let functionsAt := fielddefsAt + p.fielddefs.size * recordSize .fielddefs
  let stringsAt := functionsAt + p.functions.size * recordSize .functions
  let globalsAt := stringsAt + p.strings.length * recordSize .strings
  { version := programVersion
    crc := p.header.crc
    statementsAt := .ofNat (recordSize .header)
    statements := .ofNat p.statements.size
    globaldefsAt := .ofNat globaldefsAt
    globaldefs := .ofNat p.globaldefs.size
    fielddefsAt := .ofNat fielddefsAt
    fielddefs := .ofNat p.fielddefs.size
    functionsAt := .ofNat functionsAt
    functions := .ofNat p.functions.size
    stringsAt := .ofNat stringsAt
    strings := .ofNat p.strings.length
    globalsAt := .ofNat globalsAt
    globals := .ofNat p.globals.size
    entityFields := p.header.entityFields }

/-- The places and counts of all lumps fit into header fields. -/
def Fits (p : Program) : Prop :=
  ∀ x ∈ places (recordSize .header) p.counts, x.1 < 0x80000000 ∧ x.2 < 0x80000000

theorem bind_eq_ok {α β : Type} {x : Except Cause α} {f : α → Except Cause β} {b : β}
    (h : (x >>= f) = .ok b) : ∃ a, x = .ok a ∧ f a = .ok b := by
  cases x with
  | error e => cases h
  | ok a => exact ⟨a, rfl, h⟩

/-- A header has room for numbers below 2³¹ only. -/
theorem headerWord_eq_ok {n : Nat} {w : Int32} (h : headerWord n = .ok w) :
    n < 0x80000000 ∧ w = .ofNat n := by
  unfold headerWord at h
  split at h
  next hn => exact ⟨hn, (Except.ok.inj h).symm⟩
  · cases h

/-- The places that fit into a header are written as pairs, start and count. -/
theorem placeWords_eq_ok {ps : List (Nat × Nat)} {words : List Int32}
    (h : placeWords ps = .ok words) :
    (∀ x ∈ ps, x.1 < 0x80000000 ∧ x.2 < 0x80000000) ∧
      words = ps.flatMap fun x => [.ofNat x.1, .ofNat x.2] := by
  induction ps generalizing words with
  | nil =>
    cases h
    exact ⟨nofun, rfl⟩
  | cons x ps ih =>
    obtain ⟨start, hstart, h⟩ := bind_eq_ok h
    obtain ⟨count, hcount, h⟩ := bind_eq_ok h
    obtain ⟨rest, hrest, h⟩ := bind_eq_ok h
    obtain ⟨hstart', rfl⟩ := headerWord_eq_ok hstart
    obtain ⟨hcount', rfl⟩ := headerWord_eq_ok hcount
    obtain ⟨hall, rfl⟩ := ih hrest
    exact ⟨List.forall_mem_cons.mpr ⟨⟨hstart', hcount'⟩, hall⟩, (Except.ok.inj h).symm⟩

/-- What a program is written as, if it can be written. -/
theorem toBytes_eq_ok {p : Program} {b : Bytes} (h : p.toBytes = .ok b) :
    p.Fits ∧ b = headerBytes p.fileHeader ++ p.lumpBytes := by
  obtain ⟨words, hwords, h⟩ := bind_eq_ok h
  obtain ⟨hfits, rfl⟩ := placeWords_eq_ok hwords
  exact ⟨hfits, (Except.ok.inj h).symm⟩

theorem length_headerBytes (h : Header) : (headerBytes h).length = recordSize .header := rfl

/-- A file with the header and the lumps of a program is read as the program. -/
theorem ofBytes_of_tables {file : Bytes} {p : Program}
    (hlength : recordSize .header ≤ file.length)
    (hheader : headerOf (file.take (recordSize .header)) = p.header)
    (hversion : p.header.version = programVersion)
    (hstatements : table file .statements statementOf p.header.statementsAt p.header.statements =
      .ok p.statements)
    (hglobaldefs : table file .globaldefs definitionOf p.header.globaldefsAt p.header.globaldefs =
      .ok p.globaldefs)
    (hfielddefs : table file .fielddefs definitionOf p.header.fielddefsAt p.header.fielddefs =
      .ok p.fielddefs)
    (hfunctions : table file .functions functionOf p.header.functionsAt p.header.functions =
      .ok p.functions)
    (hstrings : lump file .strings p.header.stringsAt p.header.strings = .ok p.strings)
    (hglobals : table file .globals (word32At · 0) p.header.globalsAt p.header.globals =
      .ok p.globals) :
    ofBytes file = .ok p := by
  unfold ofBytes
  rw [if_neg (Nat.not_lt.mpr hlength)]
  simp only [hheader]
  rw [if_neg (by simp [hversion]), hstatements, hglobaldefs, hfielddefs, hfunctions, hstrings,
    hglobals]
  rfl

/-- **A written file is read as the program with the header of the file.** -/
theorem ofBytes_file {p : Program} (hp : p.Fits) :
    ofBytes (headerBytes p.fileHeader ++ p.lumpBytes) = .ok { p with header := p.fileHeader } := by
  generalize hfile : headerBytes p.fileHeader ++ p.lumpBytes = file
  have hlumps : HoldsAt file (recordSize .header) p.lumpBytes :=
    ⟨headerBytes p.fileHeader, [], length_headerBytes _, by rw [List.append_nil, hfile]⟩
  unfold lumpBytes at hlumps
  simp only [List.append_assoc] at hlumps
  -- The lumps in file order, each taken off with what comes behind it left.
  obtain ⟨hstatements, hlumps⟩ := codes_statements.split hlumps
  obtain ⟨hglobaldefs, hlumps⟩ := codes_globaldefs.split hlumps
  obtain ⟨hfielddefs, hlumps⟩ := codes_fielddefs.split hlumps
  obtain ⟨hfunctions, hlumps⟩ := codes_functions.split hlumps
  obtain ⟨hstrings, hglobals⟩ := hlumps.split
  have hone : p.strings.length = p.strings.length * recordSize .strings := (Nat.mul_one _).symm
  rw [hone] at hglobals
  unfold Fits counts at hp
  simp only [places, List.forall_mem_cons] at hp
  obtain ⟨hp₁, hp₂, hp₃, hp₄, hp₅, hp₆, -⟩ := hp
  apply ofBytes_of_tables
  · rw [← hfile, List.length_append, length_headerBytes]
    exact Nat.le_add_right _ _
  · rw [← hfile, List.take_left' (length_headerBytes _), headerOf_headerBytes]
  · rfl
  · exact codes_statements.table_of_holdsAt hstatements hp₁.1 hp₁.2
  · exact codes_globaldefs.table_of_holdsAt hglobaldefs hp₂.1 hp₂.2
  · exact codes_fielddefs.table_of_holdsAt hfielddefs hp₃.1 hp₃.2
  · exact codes_functions.table_of_holdsAt hfunctions hp₄.1 hp₄.2
  · exact lump_of_holdsAt hstrings hone hp₅.1 hp₅.2
  · exact codes_globals.table_of_holdsAt hglobals hp₆.1 hp₆.2

/-- The header of a written file counts the records of the lumps. -/
theorem counts_fileHeader {p : Program} (hp : p.Fits) :
    p.fileHeader.statements.toInt = p.statements.size ∧
    p.fileHeader.globaldefs.toInt = p.globaldefs.size ∧
    p.fileHeader.fielddefs.toInt = p.fielddefs.size ∧
    p.fileHeader.functions.toInt = p.functions.size ∧
    p.fileHeader.strings.toInt = p.strings.length ∧
    p.fileHeader.globals.toInt = p.globals.size := by
  unfold Fits counts at hp
  simp only [places, List.forall_mem_cons] at hp
  obtain ⟨hp₁, hp₂, hp₃, hp₄, hp₅, hp₆, -⟩ := hp
  exact ⟨toInt_ofNat hp₁.2, toInt_ofNat hp₂.2, toInt_ofNat hp₃.2, toInt_ofNat hp₄.2,
    toInt_ofNat hp₅.2, toInt_ofNat hp₆.2⟩

/-- **A program that can be written can be read back, and what is read is written as the same
file.** What is read differs from the program in the header only, which gives the version and counts
the records. -/
theorem ofBytes_toBytes {p : Program} {b : Bytes} (h : p.toBytes = .ok b) :
    ∃ q, ofBytes b = .ok q ∧
      (q.statements = p.statements ∧ q.globaldefs = p.globaldefs ∧ q.fielddefs = p.fielddefs ∧
        q.functions = p.functions ∧ q.strings = p.strings ∧ q.globals = p.globals) ∧
      (q.header.version = 6 ∧ q.header.crc = p.header.crc ∧
        q.header.entityFields = p.header.entityFields) ∧
      (q.header.statements.toInt = q.statements.size ∧
        q.header.globaldefs.toInt = q.globaldefs.size ∧
        q.header.fielddefs.toInt = q.fielddefs.size ∧
        q.header.functions.toInt = q.functions.size ∧
        q.header.strings.toInt = q.strings.length ∧
        q.header.globals.toInt = q.globals.size) ∧
      q.toBytes = .ok b := by
  obtain ⟨hp, rfl⟩ := toBytes_eq_ok h
  -- Writing looks at the header for the checksum and the field count only.
  exact ⟨_, ofBytes_file hp, ⟨rfl, rfl, rfl, rfl, rfl, rfl⟩, ⟨rfl, rfl, rfl⟩,
    counts_fileHeader hp, h⟩

/-- A program with records in most of its lumps. -/
def small : Program where
  header := { crc := 5927, entityFields := 3 }
  statements := #[{}, { op := 43, a := 65535, b := 28, c := 1 }]
  globaldefs := #[{ type := 0x8002, offset := 28, name := 1 }]
  functions := #[{},
    { firstStatement := 1, parmStart := 28, locals := -1, parameters := 2,
      parameterSizes := #v[1, 3, 0, 0, 0, 0, 0, 255] }]
  strings := [0, 120, 0]
  globals := #[0, -1, 0x40200000]

theorem ofBytes_toBytes_small :
    ∃ b q, small.toBytes = .ok b ∧ ofBytes b = .ok q ∧ q.functions = small.functions ∧
      q.toBytes = .ok b := by
  have hok : (small.toBytes matches .ok _) := by decide +kernel
  cases hb : small.toBytes with
  | error e =>
    rw [hb] at hok
    cases hok
  | ok b =>
    obtain ⟨q, hq, ⟨-, -, -, hfunctions, -, -⟩, -, -, hagain⟩ := ofBytes_toBytes hb
    exact ⟨b, q, rfl, hq, hfunctions, hagain⟩

end Program

end QuakeVm
