import QuakeVm.Proofs.Lines
import QuakeVm.Text.Info
import Mathlib.Logic.Function.Basic

/-!
# Info strings are maps

An info string is read as a list of entries, and setting a key writes all entries anew. The text that
was there may be anything: without a leading separator, with a key at its end that has no value, with
empty keys, or with several values for a key. None of this comes back in the new text, where every key
and every value stands behind a separator of its own. So the new text is read as the entries that were
written (`entries_flatMap_entryText`), and to a program the string is a map from keys to values.

Keys and values that were read have no separator in them, because they stood between separators, and
those that are set must not have one (`isLegal_eq_true`). This is all that reading back needs.
-/

namespace QuakeVm

theorem Bytes.notMem_of_mem_split {sep : UInt8} {s field : Bytes} (h : field ∈ split sep s) :
    sep ∉ field := by
  induction s generalizing field with
  | nil =>
    rw [split, List.mem_singleton] at h
    simp [h]
  | cons c rest ih =>
    rw [split] at h
    split at h
    · rcases List.mem_cons.mp h with rfl | h
      · simp
      · exact ih h
    · rename_i hc
      have hne : ¬sep = c := fun heq => hc (beq_iff_eq.mpr heq.symm)
      cases hrest : split sep rest with
      | nil =>
        rw [hrest, List.mem_singleton] at h
        simp [h, hne]
      | cons first fields =>
        rw [hrest] at h ih
        rcases List.mem_cons.mp h with rfl | h
        · have hfirst := ih List.mem_cons_self
          simp [hne, hfirst]
        · exact ih (List.mem_cons_of_mem first h)

namespace Info

variable {info key value updated : Bytes} {es : List (Bytes × Bytes)}

/-! ## Reading what was written -/

/-- Entries that can be written: there is no separator in them. -/
def Writable (es : List (Bytes × Bytes)) : Prop :=
  ∀ e ∈ es, separator ∉ e.1 ∧ separator ∉ e.2

/-- The keys and values of entries, in turn. -/
def parts (es : List (Bytes × Bytes)) : List Bytes := es.flatMap fun e => [e.1, e.2]

theorem pair_parts (es : List (Bytes × Bytes)) : pair (parts es) = es := by
  induction es with
  | nil => rfl
  | cons e rest ih =>
    change (e.1, e.2) :: pair (parts rest) = e :: rest
    rw [ih]

theorem notMem_of_mem_parts (h : Writable es) : ∀ s ∈ parts es, separator ∉ s := by
  intro s hs
  obtain ⟨e, he, hmem⟩ := List.mem_flatMap.mp hs
  simp only [List.mem_cons, List.not_mem_nil, or_false] at hmem
  rcases hmem with rfl | rfl
  · exact (h e he).1
  · exact (h e he).2

theorem writable_pair {l : List Bytes} (h : ∀ s ∈ l, separator ∉ s) : Writable (pair l) := by
  fun_induction pair l with
  | case1 => simp [Writable]
  | case2 key => simpa [Writable] using h
  | case3 key value rest ih =>
    intro e he
    rcases List.mem_cons.mp he with rfl | he
    · exact ⟨h key (by simp), h value (by simp)⟩
    · exact ih (fun s hs => h s (by simp [hs])) e he

/-- What was read can be written. -/
theorem writable_entries (info : Bytes) : Writable (entries info) := by
  have hpairs : Writable (pair (Bytes.split separator (body info))) :=
    writable_pair fun _ => Bytes.notMem_of_mem_split
  intro e he
  exact hpairs e (List.mem_filter.mp he).1

/-- Written entries are their keys and values, each behind a separator. -/
theorem flatMap_entryText (es : List (Bytes × Bytes)) :
    es.flatMap entryText = (parts es).flatMap ([separator] ++ ·) := by
  have hentry : entryText = fun e => [e.1, e.2].flatMap ([separator] ++ ·) := by
    funext e
    simp [entryText]
  rw [parts, List.flatMap_assoc, hentry]

/-- **Entries that were written are read back**, except for those with an empty key. -/
theorem entries_flatMap_entryText (h : Writable es) :
    entries (es.flatMap entryText) = es.filter (! ·.1.isEmpty) := by
  cases es with
  | nil => rfl
  | cons e rest =>
    have hbody : body ((e :: rest).flatMap entryText) =
        [separator].intercalate (parts (e :: rest)) := by
      rw [flatMap_entryText, parts, List.flatMap_cons, List.cons_append, Bytes.intercalate_cons]
      rfl
    unfold entries
    rw [hbody, Bytes.split_eq_splitOn,
      List.splitOn_intercalate separator (notMem_of_mem_parts h) nofun, pair_parts]

/-! ## Setting a key -/

theorem isLegal_eq_true {s : Bytes} : isLegal s = true ↔ separator ∉ s ∧ 0x22 ∉ s := by
  simp only [isLegal, List.all_eq_true, Bool.and_eq_true, bne_iff_ne]
  constructor
  · intro h
    exact ⟨fun hmem => (h _ hmem).1 rfl, fun hmem => (h _ hmem).2 rfl⟩
  · intro h c hc
    exact ⟨ne_of_mem_of_not_mem hc h.1, ne_of_mem_of_not_mem hc h.2⟩

theorem set?_eq_none : set? info key value = none ↔ ¬(isLegal key = true ∧ isLegal value = true) := by
  unfold set?
  rw [← Bool.and_eq_true]
  split <;> simp [*]

/-- The entries that setting a key writes: all others in their order, and its own unless the value is
empty. -/
def written (info key value : Bytes) : List (Bytes × Bytes) :=
  (entries info).filter (·.1 != key) ++ if value = [] then [] else [(key, value)]

theorem updated_of_set? (h : set? info key value = some updated) :
    isLegal key = true ∧ isLegal value = true ∧
      updated = (written info key value).flatMap entryText := by
  unfold set? at h
  split at h
  · rename_i hlegal
    obtain ⟨hkey, hvalue⟩ := Bool.and_eq_true_iff.mp hlegal
    refine ⟨hkey, hvalue, ?_⟩
    rw [← Option.some.inj h, written, List.flatMap_append]
    by_cases hempty : value = []
    · simp [hempty]
    · simp [hempty]
  · cases h

theorem writable_written (info : Bytes) (hkey : isLegal key = true) (hvalue : isLegal value = true) :
    Writable (written info key value) := by
  intro e he
  rcases List.mem_append.mp he with he | he
  · exact writable_entries info e (List.mem_filter.mp he).1
  · by_cases hempty : value = []
    · simp [hempty] at he
    · obtain rfl : e = (key, value) := by simpa [hempty] using he
      exact ⟨(isLegal_eq_true.mp hkey).1, (isLegal_eq_true.mp hvalue).1⟩

/-- The entry of a key that has been set, if there is one that can be read. -/
def addition (key value : Bytes) : List (Bytes × Bytes) :=
  if key = [] ∨ value = [] then [] else [(key, value)]

/-- Setting a key removes its entries and adds one; all others stay in their order. -/
theorem entries_of_set? (h : set? info key value = some updated) :
    entries updated = (entries info).filter (·.1 != key) ++ addition key value := by
  obtain ⟨hkey, hvalue, rfl⟩ := updated_of_set? h
  have hkept : ((entries info).filter (·.1 != key)).filter (! ·.1.isEmpty) =
      (entries info).filter (·.1 != key) := by
    rw [List.filter_eq_self]
    intro e he
    exact (List.mem_filter.mp (List.mem_filter.mp he).1).2
  rw [entries_flatMap_entryText (writable_written info hkey hvalue), written, List.filter_append,
    hkept]
  by_cases hk : key = [] <;> by_cases hv : value = [] <;> simp [addition, hk, hv]

/-! ## Looking keys up -/

theorem find?_filter_self (es : List (Bytes × Bytes)) (key : Bytes) :
    (es.filter (·.1 != key)).find? (·.1 == key) = none := by
  rw [List.find?_eq_none]
  intro e he
  simpa using (List.mem_filter.mp he).2

theorem find?_filter_ne (es : List (Bytes × Bytes)) {key k : Bytes} (h : k ≠ key) :
    (es.filter (·.1 != key)).find? (·.1 == k) = es.find? (·.1 == k) := by
  rw [List.find?_filter]
  congr 1
  funext e
  by_cases he : e.1 = k
  · simp [he, h]
  · simp [he]

/-- No entry has an empty key. -/
theorem get?_nil (info : Bytes) : get? info [] = none := by
  unfold get?
  rw [Option.map_eq_none_iff, List.find?_eq_none]
  intro e he
  simpa using (List.mem_filter.mp he).2

theorem get?_of_set?_ne (h : set? info key value = some updated) {k : Bytes} (hk : k ≠ key) :
    get? updated k = get? info k := by
  have hadded : (addition key value).find? (·.1 == k) = none := by
    unfold addition
    split
    · rfl
    · simpa using hk.symm
  unfold get?
  rw [entries_of_set? h, List.find?_append, hadded, Option.or_none, find?_filter_ne _ hk]

theorem get?_of_set?_self (h : set? info key value = some updated) (hkey : key ≠ []) :
    get? updated key = if value = [] then none else some value := by
  unfold get?
  rw [entries_of_set? h, List.find?_append, find?_filter_self, Option.none_or]
  by_cases hvalue : value = []
  · simp [addition, hvalue]
  · simp [addition, hkey, hvalue]

/-- **Info strings are maps from keys to values**, whatever text they are. A key can be set exactly if
neither it nor the value has a backslash or a double quote in it. Then it is found with its value, or
not at all if the value is empty, and every other key is found as before. Setting the empty key changes
nothing that can be found. -/
theorem set_updates_map (info key value : Bytes) :
    (set? info key value = none ↔ (0x5c ∈ key ∨ 0x22 ∈ key) ∨ 0x5c ∈ value ∨ 0x22 ∈ value) ∧
      ∀ updated, set? info key value = some updated →
        get? updated = if key = [] then get? info
          else Function.update (get? info) key (if value = [] then none else some value) := by
  constructor
  · rw [set?_eq_none, isLegal_eq_true, isLegal_eq_true]
    change ¬((0x5c ∉ key ∧ 0x22 ∉ key) ∧ 0x5c ∉ value ∧ 0x22 ∉ value) ↔ _
    simp only [not_and_or, not_not]
  · intro updated h
    funext k
    by_cases hkey : key = []
    · rw [if_pos hkey]
      by_cases hk : k = []
      · rw [hk, get?_nil, get?_nil]
      · exact get?_of_set?_ne h (by rwa [hkey])
    · rw [if_neg hkey]
      by_cases hk : k = key
      · rw [hk, Function.update_self, get?_of_set?_self h hkey]
      · rw [Function.update_of_ne hk, get?_of_set?_ne h hk]

/-- The text `a\b\\x\a\c\d`: no leading separator, an empty key, a key twice, and one without a
value. -/
def unruly : Bytes :=
  [0x61, 0x5c, 0x62, 0x5c, 0x5c, 0x78, 0x5c, 0x61, 0x5c, 0x63, 0x5c, 0x64]

/-- Both values of `a` are gone when it is set to `y`, and `d` still has no value. -/
theorem set_updates_map_unruly :
    set? unruly [0x61] [0x79] = some [0x5c, 0x64, 0x5c, 0x5c, 0x61, 0x5c, 0x79] ∧
      get? [0x5c, 0x64, 0x5c, 0x5c, 0x61, 0x5c, 0x79] =
        Function.update (get? unruly) [0x61] (some [0x79]) := by
  have hset : set? unruly [0x61] [0x79] = some [0x5c, 0x64, 0x5c, 0x5c, 0x61, 0x5c, 0x79] := by
    decide
  exact ⟨hset, (set_updates_map unruly [0x61] [0x79]).2 _ hset⟩

end Info

end QuakeVm
