import QuakeVm.Proofs.Partition
import Mathlib.Algebra.GroupWithZero.Nat
import Mathlib.Data.List.TakeWhile

/-!
# Lines of files

A file is read line by line through a cache that is filled in pieces, and a string buffer takes the
lines of a whole text at once. This module says what the lines of a content are (`segments`) and how
programs see one (`shown`), that reading through the cache gives them one after the other however the
content is cut into pieces, and that both ways to read lines agree, except for a content that is a
single line feed.

What a reader has ahead of it, fetched or not, carries the first part: filling the cache leaves it
alone, and a line takes from its front. The second part compares two ways to leave out the empty
segment behind the last line feed.
-/

namespace QuakeVm

/-! ## The lines of a content -/

/-- What stands between line feeds, without an empty segment behind the last of them. -/
def segments (content : Bytes) : List Bytes :=
  if (content.splitOn 0x0a).getLast? = some [] then (content.splitOn 0x0a).dropLast
  else content.splitOn 0x0a

/-- A segment as programs see it: cut at its first NUL, and then without one carriage return at its
end. -/
def shown (segment : Bytes) : Bytes :=
  if (segment.takeWhile (· != 0)).getLast? = some 0x0d then (segment.takeWhile (· != 0)).dropLast
  else segment.takeWhile (· != 0)

/-- The number of bytes that the first `n` segments take with their line feeds. -/
def consumed (content : Bytes) (n : Nat) : Nat :=
  min (((segments content).take n).map (·.length + 1)).sum content.length

theorem segments_nil : segments [] = [] := by
  simp [segments]

theorem splitOn_of_notMem {content : Bytes} (h : 0x0a ∉ content) :
    content.splitOn 0x0a = [content] :=
  List.splitOnP_eq_singleton fun _ hc => beq_false_of_ne (ne_of_mem_of_not_mem hc h)

theorem segments_of_notMem {content : Bytes} (hne : content ≠ []) (h : 0x0a ∉ content) :
    segments content = [content] := by
  simp [segments, splitOn_of_notMem h, hne]

theorem segments_append {line rest : Bytes} (h : 0x0a ∉ line) :
    segments (line ++ 0x0a :: rest) = line :: segments rest := by
  have hparts : (line ++ 0x0a :: rest).splitOn 0x0a = line :: rest.splitOn 0x0a := by
    rw [List.splitOn, List.splitOnP_append_cons line rest rfl, ← List.splitOn, splitOn_of_notMem h]
    rfl
  obtain ⟨part, parts, hcons⟩ : ∃ part parts, rest.splitOn 0x0a = part :: parts :=
    List.exists_cons_of_ne_nil (List.splitOnP_ne_nil _ _)
  unfold segments
  rw [hparts, hcons, List.getLast?_cons_cons, List.dropLast_cons_cons]
  split <;> rfl

/-- The bytes up to the next line feed. -/
def firstLine (content : Bytes) : Bytes := content.takeWhile (· != 0x0a)

/-- The bytes behind the next line feed. -/
def afterLine (content : Bytes) : Bytes := (content.dropWhile (· != 0x0a)).drop 1

theorem firstLine_cons {c : UInt8} (h : c ≠ 0x0a) (rest : Bytes) :
    firstLine (c :: rest) = c :: firstLine rest :=
  List.takeWhile_cons_of_pos (bne_iff_ne.mpr h)

theorem afterLine_cons {c : UInt8} (h : c ≠ 0x0a) (rest : Bytes) :
    afterLine (c :: rest) = afterLine rest := by
  unfold afterLine
  rw [List.dropWhile_cons_of_pos (by simpa using h)]

/-- A content without a line feed is its first line; any other is put together from its first line, a
line feed and the rest. -/
theorem firstLine_cases (content : Bytes) :
    (firstLine content = content ∧ afterLine content = [] ∧ 0x0a ∉ content) ∨
      (content = firstLine content ++ 0x0a :: afterLine content ∧ 0x0a ∉ firstLine content) := by
  induction content with
  | nil => exact Or.inl ⟨rfl, rfl, nofun⟩
  | cons c rest ih =>
    by_cases hc : c = 0x0a
    · subst hc
      exact Or.inr ⟨rfl, nofun⟩
    · have hne : ¬0x0a = c := fun h => hc h.symm
      rw [firstLine_cons hc, afterLine_cons hc]
      rcases ih with ⟨hfirst, hafter, hmem⟩ | ⟨hrest, hmem⟩
      · exact Or.inl ⟨by rw [hfirst], hafter, by simp [hmem, hne]⟩
      · exact Or.inr ⟨by rw [List.cons_append, ← hrest], by simp [hmem, hne]⟩

theorem segments_of_ne_nil {content : Bytes} (h : content ≠ []) :
    segments content = firstLine content :: segments (afterLine content) := by
  rcases firstLine_cases content with ⟨hfirst, hafter, hmem⟩ | ⟨hcontent, hmem⟩
  · rw [hfirst, hafter, segments_of_notMem h hmem, segments_nil]
  · conv_lhs => rw [hcontent]
    exact segments_append hmem

theorem segments_afterLine (content : Bytes) :
    segments (afterLine content) = (segments content).tail := by
  by_cases hnil : content = []
  · subst hnil
    rfl
  · rw [segments_of_ne_nil hnil, List.tail_cons]

/-- What is left of a content after some lines. -/
def afterLines (content : Bytes) : Nat → Bytes
  | 0 => content
  | n + 1 => afterLines (afterLine content) n

theorem length_afterLine (content : Bytes) :
    content.length = min ((firstLine content).length + 1) content.length +
      (afterLine content).length := by
  rcases firstLine_cases content with ⟨hfirst, hafter, -⟩ | ⟨hcontent, -⟩
  · rw [hfirst, hafter, List.length_nil]
    omega
  · have hlength := congrArg List.length hcontent
    rw [List.length_append, List.length_cons] at hlength
    omega

theorem length_afterLines (content : Bytes) (n : Nat) :
    (afterLines content n).length = content.length - consumed content n := by
  induction n generalizing content with
  | zero => simp [afterLines, consumed]
  | succ n ih =>
    rw [afterLines, ih]
    by_cases hnil : content = []
    · subst hnil
      simp [afterLine]
    · have hlength := length_afterLine content
      unfold consumed
      rw [segments_of_ne_nil hnil, List.take_succ_cons, List.map_cons, List.sum_cons]
      omega

/-! ## Reading through a cache -/

namespace Reader

variable (s : Source) (r : Reader)

/-- What a reader of a content has ahead of it, fetched or not. -/
def ahead (content : Bytes) (r : Reader) : Bytes := r.unread ++ content.drop r.cursor

theorem remaining_eq (content : Bytes) : r.remaining content.length = (r.ahead content).length := by
  simp only [remaining, ahead, List.length_append, List.length_drop]
  omega

/-- Filling the cache leaves what is ahead alone. -/
theorem ahead_fetch : (r.fetch s).ahead s.content = r.ahead s.content := by
  unfold fetch
  split
  · rename_i h
    unfold ahead piece
    rw [h, List.nil_append, ← List.drop_drop]
    generalize s.content.drop r.cursor = rest
    rw [List.length_take]
    rcases Nat.le_total (pieceSize s r.cursor) rest.length with hle | hle
    · rw [Nat.min_eq_left hle, List.take_append_drop]
    · rw [Nat.min_eq_right hle, List.take_of_length_le hle, List.drop_length, List.append_nil]
  · rfl

/-- The cache is empty after it has been filled only if nothing is ahead. -/
theorem ahead_of_unread (h : (r.fetch s).unread = []) : r.ahead s.content = [] := by
  have hsize : 1 ≤ pieceSize s r.cursor := Nat.le_max_left _ _
  unfold fetch at h
  split at h
  · rename_i hunread
    have hlength : (piece s r.cursor).length = 0 := congrArg List.length h
    rw [piece, List.length_take] at hlength
    unfold ahead
    rw [hunread, List.nil_append]
    exact List.eq_nil_of_length_eq_zero (by omega)
  · rename_i hunread
    rw [hunread] at h
    cases h

theorem next?_of_nil (h : r.ahead s.content = []) : r.next? s = none := by
  have hunread : (r.fetch s).unread = [] := by
    rw [← ahead_fetch] at h
    exact (List.append_eq_nil_iff.mp h).1
  unfold next?
  rw [hunread]

theorem next?_of_cons {c : UInt8} {rest : Bytes} (h : r.ahead s.content = c :: rest) :
    ∃ r', r.next? s = some (c, r') ∧ r'.ahead s.content = rest := by
  unfold next?
  cases hunread : (r.fetch s).unread with
  | nil =>
    rw [ahead_of_unread s r hunread] at h
    cases h
  | cons x more =>
    rw [← ahead_fetch, ahead, hunread, List.cons_append] at h
    cases h
    exact ⟨_, rfl, rfl⟩

/-- A line takes from what is ahead, however that is cut into pieces. -/
theorem rawLine_spec : (r.rawLine s).1 = firstLine (r.ahead s.content) ∧
    (r.rawLine s).2.ahead s.content = afterLine (r.ahead s.content) := by
  induction hahead : r.ahead s.content generalizing r with
  | nil =>
    rw [rawLine]
    split
    · exact ⟨rfl, by rw [ahead_fetch, hahead]; rfl⟩
    · rename_i h
      rw [next?_of_nil s r hahead] at h
      cases h
  | cons c rest ih =>
    obtain ⟨r', hnext, hrest⟩ := next?_of_cons s r hahead
    rw [rawLine]
    split
    · rename_i h
      rw [hnext] at h
      cases h
    · rename_i h
      rw [hnext] at h
      cases h
      by_cases hc : c = 0x0a
      · subst hc
        exact ⟨rfl, hrest⟩
      · obtain ⟨hline, hafter⟩ := ih r' hrest
        rw [if_neg (by simp [hc]), firstLine_cons hc, afterLine_cons hc]
        exact ⟨congrArg (c :: ·) hline, hafter⟩

theorem lineText_eq_shown (segment : Bytes) : lineText segment = shown segment := by
  simp only [lineText, Bytes.dropLastIf, Bytes.untilNul, shown, beq_iff_eq]

/-- The next line is the first of those ahead, and the others stay ahead. -/
theorem line?_spec : (r.line? s).1 = ((segments (r.ahead s.content)).map shown)[0]? ∧
    (r.line? s).2.ahead s.content = afterLine (r.ahead s.content) := by
  unfold line?
  cases hahead : r.ahead s.content with
  | nil =>
    rw [next?_of_nil s r hahead, segments_nil]
    exact ⟨rfl, by rw [ahead_fetch, hahead]; rfl⟩
  | cons c rest =>
    obtain ⟨r', hnext, -⟩ := next?_of_cons s r hahead
    obtain ⟨hline, hafter⟩ := rawLine_spec s r
    rw [hnext, segments_of_ne_nil (List.cons_ne_nil c rest), ← hahead]
    exact ⟨by rw [← hline, List.map_cons, ← lineText_eq_shown]; rfl, hafter⟩

end Reader

/-! ## Reading from a table of files -/

namespace FileTable

/-- The answers of `n` calls for the next line of a file, and the table after them. -/
def answers (pieces : Nat → Nat) (d : Disk) (owner : Role) (handle : Int) :
    FileTable → Nat → Except FileRefusal (List (Option Bytes) × FileTable)
  | t, 0 => .ok ([], t)
  | t, n + 1 =>
    match t.getsBy pieces d owner handle with
    | .error e => .error e
    | .ok (line, t) => (answers pieces d owner handle t n).map fun r => (line :: r.1, r.2)

/-- The file of a handle is open for reading, and has this much ahead of it. -/
def Reads (d : Disk) (owner : Role) (handle : Int) (t : FileTable) (rest : Bytes) : Prop :=
  ∃ f, t.get owner handle = .ok f ∧ f.mode = .read ∧ f.size = (d.contentAt f.place).length ∧
    f.reader.ahead (d.contentAt f.place) = rest

variable {d : Disk} {owner : Role} {handle : Int} {t : FileTable} {rest : Bytes}

theorem reads_insert (t : FileTable) (d : Disk) (owner : Role) (name : String) (place : Place) :
    Reads d owner
      (t.insert owner { name, place, mode := .read, size := (d.contentAt place).length }).1
      (t.insert owner { name, place, mode := .read, size := (d.contentAt place).length }).2
      (d.contentAt place) :=
  ⟨_, OwnedTable.get_eq_ok.mpr (slot?_insert t owner _).2, rfl, rfl, rfl⟩

theorem Reads.fileRemaining_eq (h : Reads d owner handle t rest) :
    t.fileRemaining owner handle = .ok rest.length := by
  obtain ⟨f, hget, -, hsize, rfl⟩ := h
  unfold fileRemaining
  rw [find_eq_ok.mpr hget, ← Reader.remaining_eq, ← hsize]
  rfl

/-- A call for the next line answers with the first line ahead and leaves the others ahead. -/
theorem Reads.getsBy_eq (h : Reads d owner handle t rest) (pieces : Nat → Nat) :
    ∃ t', t.getsBy pieces d owner handle = .ok (((segments rest).map shown)[0]?, t') ∧
      Reads d owner handle t' (afterLine rest) := by
  obtain ⟨f, hget, hmode, hsize, rfl⟩ := h
  obtain ⟨hline, hahead⟩ := Reader.line?_spec ⟨d.contentAt f.place, pieces⟩ f.reader
  obtain ⟨n, rfl, hn⟩ := OwnedTable.exists_index (OwnedTable.get_eq_ok.mp hget)
  unfold getsBy
  rw [find_eq_ok.mpr hget]
  dsimp only
  rw [if_neg (by simp [hmode]), ← hline]
  exact ⟨_, rfl, _, OwnedTable.get_eq_ok.mpr (OwnedTable.slot?_put_self t hn owner _), hmode, hsize,
    hahead⟩

theorem Reads.answers_eq (h : Reads d owner handle t rest) (pieces : Nat → Nat) (n : Nat) :
    ∃ t', answers pieces d owner handle t n =
        .ok ((List.range n).map (((segments rest).map shown)[·]?), t') ∧
      Reads d owner handle t' (afterLines rest n) := by
  induction n generalizing t rest with
  | zero => exact ⟨t, rfl, h⟩
  | succ n ih =>
    obtain ⟨t₁, hgets, hreads⟩ := h.getsBy_eq pieces
    obtain ⟨t₂, hanswers, hafter⟩ := ih hreads
    refine ⟨t₂, ?_, hafter⟩
    rw [answers, hgets]
    dsimp only
    rw [hanswers, List.range_succ_eq_map, List.map_cons, List.map_map, segments_afterLine]
    simp [Except.map, Function.comp_def]

end FileTable

/-- **Reading through the cache gives the lines of the file.** A file has been opened for reading. Its
content is fetched in pieces of any sizes. Call by call, the answers are the segments of the content
in order, each as programs see a line, and none from then on; and after any number of calls what
remains is the content less the bytes that have been consumed. -/
theorem gets_segments (pieces : Nat → Nat) (t : FileTable) (d : Disk) (owner : Role) (name : String)
    (place : Place) (n : Nat) :
    let content := d.contentAt place
    let opened := t.insert owner { name, place, mode := .read, size := content.length }
    ∃ t', FileTable.answers pieces d owner opened.1 opened.2 n =
        .ok ((List.range n).map (((segments content).map shown)[·]?), t') ∧
      t'.fileRemaining owner opened.1 = .ok (content.length - consumed content n) := by
  intro content opened
  obtain ⟨t', hanswers, hreads⟩ :=
    (FileTable.reads_insert t d owner name place).answers_eq pieces n
  exact ⟨t', hanswers, by rw [hreads.fileRemaining_eq, length_afterLines]⟩

/-! ## Lines of a text -/

namespace Bytes

theorem split_eq_splitOn (sep : UInt8) (s : Bytes) : split sep s = s.splitOn sep := by
  unfold List.splitOn
  induction s with
  | nil => rfl
  | cons c rest ih =>
    rw [split, List.splitOnP_cons_eq_if_modifyHead, ih]
    cases hrest : rest.splitOnP (· == sep) with
    | nil => exact absurd hrest (List.splitOnP_ne_nil _ rest)
    | cons part parts => rfl

/-- Every string but the first is behind a separator. -/
theorem intercalate_cons (sep s : Bytes) (l : List Bytes) :
    sep.intercalate (s :: l) = s ++ l.flatMap (sep ++ ·) := by
  induction l generalizing s with
  | nil => simp
  | cons t rest ih => simp [List.intercalate_cons_cons, ih]

theorem dropLastIf_concat (c : UInt8) (s : Bytes) : dropLastIf c (s ++ [c]) = s := by
  simp [dropLastIf]

theorem dropLastIf_of_ne {c : UInt8} {s : Bytes} (h : s.getLast? ≠ some c) : dropLastIf c s = s := by
  simp [dropLastIf, h]

theorem untilNul_of_notMem {s : Bytes} (h : 0 ∉ s) : untilNul s = s :=
  List.takeWhile_eq_self_iff.mpr fun _ hc => bne_iff_ne.mpr (ne_of_mem_of_not_mem hc h)

end Bytes

/-- The last segment of a content that does not end in a line feed is not empty. -/
theorem getLast?_splitOn {content : Bytes} (hne : content ≠ []) (h : content.getLast? ≠ some 0x0a) :
    (content.splitOn 0x0a).getLast? ≠ some [] := by
  induction content with
  | nil => exact absurd rfl hne
  | cons c rest ih =>
    unfold List.splitOn at ih ⊢
    rw [List.splitOnP_cons_eq_if_modifyHead]
    cases rest with
    | nil =>
      have hc : c ≠ 0x0a := by simpa using h
      simp [hc]
    | cons x more =>
      rw [List.getLast?_cons_cons] at h
      have hlast := ih (List.cons_ne_nil x more) h
      obtain ⟨part, parts, hparts⟩ :=
        List.exists_cons_of_ne_nil (List.splitOnP_ne_nil (· == 0x0a) (x :: more))
      rw [hparts] at hlast ⊢
      split
      · rwa [List.getLast?_cons_cons]
      · cases parts with
        | nil => simp
        | cons part' parts => simpa using hlast

/-- The empty segment behind the last line feed is left out whether the line feed is dropped before
splitting or the segment after it, unless the line feed is all there is. -/
theorem lines_eq_segments {content : Bytes} (h : content ≠ [0x0a]) :
    Buffer.lines content = (segments content).map (Bytes.dropLastIf 0x0d) := by
  unfold Buffer.lines
  dsimp only
  rw [Bytes.split_eq_splitOn]
  by_cases hlast : content.getLast? = some 0x0a
  · obtain ⟨front, rfl⟩ := List.getLast?_eq_some_iff.mp hlast
    have hfront : front ≠ [] := by
      rintro rfl
      exact h rfl
    have hparts : (front ++ [0x0a]).splitOn 0x0a = front.splitOn 0x0a ++ [[]] :=
      List.splitOnP_append_cons front [] rfl
    have hsegments : segments (front ++ [0x0a]) = front.splitOn 0x0a := by
      simp [segments, hparts]
    rw [Bytes.dropLastIf_concat, hsegments, if_neg (by simpa using hfront)]
  · rw [Bytes.dropLastIf_of_ne hlast]
    by_cases hnil : content = []
    · subst hnil
      rfl
    · rw [if_neg (by simpa using hnil), segments, if_neg (getLast?_splitOn hnil hlast)]

/-- Without a NUL a line is as programs see it but for a carriage return at its end. -/
theorem shown_segments {content : Bytes} (h : 0 ∉ content) :
    (segments content).map shown = (segments content).map (Bytes.dropLastIf 0x0d) := by
  induction hn : content.length using Nat.strongRecOn generalizing content with
  | _ n ih =>
    by_cases hnil : content = []
    · subst hnil
      rfl
    · have hfirst : 0 ∉ firstLine content := fun hmem => h ((List.takeWhile_sublist _).subset hmem)
      have hafter : 0 ∉ afterLine content := fun hmem =>
        h ((List.dropWhile_sublist _).subset ((List.drop_sublist _ _).subset hmem))
      have hlt : (afterLine content).length < n := by
        have hlength := length_afterLine content
        have hpos := List.length_pos_iff.mpr hnil
        omega
      rw [segments_of_ne_nil hnil, List.map_cons, List.map_cons, ih _ hlt hafter rfl,
        ← Reader.lineText_eq_shown, Reader.lineText, Bytes.untilNul_of_notMem hfirst]

/-! ## Adding lines to a buffer -/

namespace Buffer

theorem set?_size (b : Buffer) (s : Bytes) (h : b.size < Limits.bufferStrings) :
    b.set? b.size s = some ⟨b.strings.push (some s)⟩ := by
  have hone : b.size + 1 - b.strings.size = 1 := Nat.add_sub_cancel_left ..
  unfold set?
  rw [if_neg (Nat.not_le.mpr h), hone]
  simp [size, ← Array.toList_inj]

/-- The buffer with more strings at its end. -/
def append (b : Buffer) (l : List Bytes) : Buffer := ⟨b.strings ++ (l.map some).toArray⟩

theorem addAll_eq (b : Buffer) (l : List Bytes) (h : b.size + l.length ≤ Limits.bufferStrings) :
    b.addAll l = (b.append l, none) := by
  unfold append
  induction l generalizing b with
  | nil => simp [addAll]
  | cons s rest ih =>
    rw [List.length_cons] at h
    rw [addAll, set?_size b s (by omega)]
    dsimp only
    rw [ih]
    · simp
    · simp [size] at h ⊢
      omega

end Buffer

/-- The activation with another content of a string buffer. -/
def Activation.withBuffer (a : Activation) (handle : Int) (b : Buffer) : Activation :=
  a.mapWorld fun w => { w with buffers := w.buffers.replace a.machine.role handle b }

open QuakeVm.Action in
theorem addLines_apply {a : Activation} {handle : Int} {b : Buffer} {text : Bytes}
    (h : a.world.buffers.find a.machine.role handle "buf_loadfile" = .ok b)
    (hroom : b.size + (Buffer.lines text).length ≤ Limits.bufferStrings) :
    Builtins.addLines handle text a =
      .ok true (a.withBuffer handle (b.append (Buffer.lines text))) := by
  rw [Builtins.addLines, bind_apply, Request.findBuffer_of_ok h]
  dsimp only
  rw [Buffer.addAll_eq b _ hroom]
  rfl

/-- **The two ways to read lines agree**, but for a content that is a single line feed. A file without
a NUL has been opened for reading. The calls for the next line give its lines, and none after them;
and if a string buffer has room for these lines, adding the content of the file to it puts them behind
the strings that it has and changes nothing else. -/
theorem addLines_gets (pieces : Nat → Nat) (t : FileTable) (d : Disk) (owner : Role) (name : String)
    (place : Place) (hnul : 0 ∉ d.contentAt place) (hne : d.contentAt place ≠ [0x0a]) :
    let content := d.contentAt place
    let opened := t.insert owner { name, place, mode := .read, size := content.length }
    let lines := (segments content).map shown
    (∃ t', FileTable.answers pieces d owner opened.1 opened.2 (lines.length + 1) =
      .ok (lines.map some ++ [none], t')) ∧
    ∀ (a : Activation) (handle : Int) (b : Buffer),
      a.world.buffers.find a.machine.role handle "buf_loadfile" = .ok b →
      b.size + lines.length ≤ Limits.bufferStrings →
      Builtins.addLines handle content a = .ok true (a.withBuffer handle (b.append lines)) := by
  intro content opened lines
  have hrange (l : List Bytes) : (List.range (l.length + 1)).map (l[·]?) = l.map some ++ [none] := by
    have hall : (List.range l.length).map (l[·]?) = l.map some :=
      List.ext_getElem (by simp) (by simp)
    rw [List.range_succ, List.map_append, hall]
    simp
  have hlines : Buffer.lines content = lines := by
    rw [lines_eq_segments hne, ← shown_segments hnul]
  constructor
  · obtain ⟨t', hanswers, -⟩ :=
      (FileTable.reads_insert t d owner name place).answers_eq pieces (lines.length + 1)
    exact ⟨t', hanswers.trans (congrArg (fun l => Except.ok (l, t')) (hrange lines))⟩
  · intro a handle b hb hroom
    rw [← hlines] at hroom ⊢
    exact addLines_apply hb hroom

/-- A disk with one file. -/
def diskOf (content : Bytes) : Disk := ⟨[(["a"], .file content 0)]⟩

/-- The file of the disk, opened for reading. -/
def openedFrom (content : Bytes) : Nat × FileTable :=
  FileTable.insert ⟨#[]⟩ .server { name := "a", place := ["a"], mode := .read, size := content.length }

/-- A server that has one string buffer, without a string in it. -/
def loading : Activation where
  machine := { measuringLoaded.machine with role := .server }
  world := { measuringLoaded.world with buffers := ⟨#[some ⟨.server, {}⟩]⟩ }

theorem find_loading :
    loading.world.buffers.find loading.machine.role 1 "buf_loadfile" = .ok {} := rfl

/-- The text `x`, a carriage return and a line feed, a line feed, `y`. -/
def threeLines : Bytes := [0x78, 0x0d, 0x0a, 0x0a, 0x79]

theorem contentAt_diskOf (content : Bytes) : (diskOf content).contentAt ["a"] = content := rfl

/-- Three lines, read through pieces of one byte each. -/
theorem addLines_gets_threeLines :
    0 ∉ threeLines ∧ threeLines ≠ [0x0a] ∧
    (∃ t', FileTable.answers (fun _ => 1) (diskOf threeLines) .server (openedFrom threeLines).1
      (openedFrom threeLines).2 4 = .ok ([some [0x78], some [], some [0x79], none], t')) ∧
    loading.world.buffers.find loading.machine.role 1 "buf_loadfile" = .ok {} ∧
    Builtins.addLines 1 threeLines loading =
      .ok true (loading.withBuffer 1 (.append {} [[0x78], [], [0x79]])) := by
  have hlines : (segments threeLines).map shown = [[0x78], [], [0x79]] := by decide
  have hnul : 0 ∉ threeLines := by decide
  have hne : threeLines ≠ [0x0a] := by decide
  have h := addLines_gets (fun _ => 1) ⟨#[]⟩ (diskOf threeLines) .server "a" ["a"] hnul hne
  dsimp only at h
  rw [contentAt_diskOf, hlines] at h
  exact ⟨hnul, hne, h.1, find_loading, h.2 loading 1 {} find_loading (by decide)⟩

/-- Of a file that is a single line feed the next line is the empty one, and none comes after it. But
adding its lines to a buffer leaves the buffer without a string. -/
theorem single_line_feed_skipped :
    (∃ t', FileTable.answers (fun _ => Limits.readAhead) (diskOf [0x0a]) .server
      (openedFrom [0x0a]).1 (openedFrom [0x0a]).2 2 = .ok ([some [], none], t')) ∧
    loading.world.buffers.find loading.machine.role 1 "buf_loadfile" = .ok {} ∧
    Builtins.addLines 1 [0x0a] loading = .ok true (loading.withBuffer 1 {}) ∧
    (loading.withBuffer 1 {}).world.buffers.find loading.machine.role 1 "buf_loadfile" ≠
      .ok (.append {} [[]]) := by
  have hreads := FileTable.reads_insert ⟨#[]⟩ (diskOf [0x0a]) .server "a" ["a"]
  refine ⟨?_, find_loading, addLines_apply find_loading (by decide), ?_⟩
  · obtain ⟨t', hanswers, -⟩ := hreads.answers_eq (fun _ => Limits.readAhead) 2
    exact ⟨t', hanswers⟩
  · intro h
    cases h

end QuakeVm
