import QuakeVm.Entities

/-!
# Blocks of words

Making, removing and writing entities keeps the array of words cut into blocks, and keeps the world
(`Sound`). Each operation is first taken apart into what it found and what it made of it
(`allocate_eq_ok`, `remove?_eq_some`, `write_eq_ok`); nothing behind these lemmas unfolds an operation
again.

`SameWorld` compares the first block of two stages. Making and removing entities never reaches it, and
writing does only through a pointer into it.
-/

namespace QuakeVm

namespace Entities

variable {e e' : Entities}

/-! ## Operations taken apart -/

/-- The block that is found is free, and it is not before the first one looked at. -/
theorem firstFree?_eq_some {n k : Nat} {l : List Bool} (h : firstFree? n l = some k) :
    n ≤ k ∧ l[k - n]? = some true := by
  induction l generalizing n with
  | nil => cases h
  | cons b rest ih =>
    unfold firstFree? at h
    split at h
    next hb =>
      cases h
      rw [Nat.sub_self]
      exact ⟨Nat.le_refl _, by rw [hb]; rfl⟩
    next =>
      obtain ⟨hle, hfree⟩ := ih h
      refine ⟨by omega, ?_⟩
      rw [show k - n = k - (n + 1) + 1 by omega, List.getElem?_cons_succ]
      exact hfree

/-- A new entity takes a free block behind the world, or a new block. -/
theorem allocate_eq_ok {n : Nat} (h : e.allocate = .ok (n, e')) :
    1 ≤ n ∧ e.free[n]? = some true ∧ e' = e.occupy n ∨
      n = e.free.size ∧ e.free.size < e.max ∧ e' = e.grow.occupy n := by
  unfold allocate at h
  cases hfirst : firstFree? 1 (e.free.toList.drop 1) with
  | some k =>
    rw [hfirst] at h
    cases h
    obtain ⟨hle, hfree⟩ := firstFree?_eq_some hfirst
    rw [List.getElem?_drop, Array.getElem?_toList, show 1 + (n - 1) = n by omega] at hfree
    exact Or.inl ⟨hle, hfree, rfl⟩
  | none =>
    rw [hfirst] at h
    dsimp only at h
    split at h
    · cases h
    · cases h
      exact Or.inr ⟨rfl, by omega, rfl⟩

/-- Only an entity behind the world can be removed. -/
theorem remove?_eq_some {number : Int} (h : e.remove? number = some e') :
    0 < number ∧ e.free[number.toNat]? = some false ∧
      e' = { e with free := e.free.setIfInBounds number.toNat true }.clear number.toNat := by
  unfold remove? at h
  split at h
  · cases h
  next hnot =>
    cases h
    simp only [Bool.or_eq_true, decide_eq_true_eq, not_or, Bool.not_eq_true] at hnot
    obtain ⟨hpos, hlive⟩ := hnot
    refine ⟨by omega, ?_, rfl⟩
    unfold isFree at hlive
    rw [if_neg (by omega), Array.getD_eq_getD_getElem?] at hlive
    cases hentry : e.free[number.toNat]? with
    | none => rw [hentry] at hlive; cases hlive
    | some b => rw [hentry] at hlive; exact congrArg some hlive

/-- A word is written inside the blocks only. -/
theorem write_eq_ok {p : Nat} {w : Int32} (h : e.write p w = .ok e') :
    p < e.words.size ∧ e' = { e with words := e.words.setIfInBounds p w } := by
  unfold write at h
  split at h
  next hlt => cases h; exact ⟨hlt, rfl⟩
  next => cases h

theorem fields_of_write {p : Nat} {w : Int32} (h : e.write p w = .ok e') : e'.fields = e.fields := by
  obtain ⟨-, rfl⟩ := write_eq_ok h
  rfl

/-- Writing a word moves no field. -/
theorem pointer_of_write {p : Nat} {w : Int32} (h : e.write p w = .ok e') (number field : Int) :
    e'.pointer number field = e.pointer number field := by
  obtain ⟨-, rfl⟩ := write_eq_ok h
  rfl

/-- The pointer to a field lies in the block of its entity. -/
theorem pointer_eq_ok {number field : Int} {p : Nat} (h : e.pointer number field = .ok p) :
    0 ≤ number ∧ 0 ≤ field ∧ number.toNat < e.free.size ∧ field.toNat < e.fields ∧
      p = number.toNat * e.fields + field.toNat := by
  unfold pointer at h
  split at h
  · cases h
  next hnot =>
    cases h
    simp only [Bool.or_eq_true, decide_eq_true_eq, not_or] at hnot
    exact ⟨by omega, by omega, by omega, by omega, rfl⟩

/-! ## Setting words to zero -/

@[simp] theorem size_zeroFrom (words : Array Int32) (start n : Nat) :
    (zeroFrom words start n).size = words.size := by
  induction n generalizing words start with
  | zero => rfl
  | succ n ih => rw [zeroFrom, ih, Array.size_setIfInBounds]

/-- Clearing starts at its first word and leaves those before it. -/
theorem getElem?_zeroFrom_of_lt (words : Array Int32) {start i : Nat} (n : Nat) (h : i < start) :
    (zeroFrom words start n)[i]? = words[i]? := by
  induction n generalizing words start with
  | zero => rfl
  | succ n ih => rw [zeroFrom, ih _ (by omega), Array.getElem?_setIfInBounds_ne (by omega)]

/-- A block behind the world begins behind the fields of the world. -/
theorem fields_le_mul {n : Nat} (e : Entities) (h : 1 ≤ n) : e.fields ≤ n * e.fields :=
  Nat.le_mul_of_pos_left e.fields h

/-! ## What all operations keep -/

/-- The entities that making, removing and writing lead to. -/
inductive Reachable : Entities → Prop where
  | new (fields max : Nat) : Reachable (.new fields max)
  | allocate {e e' : Entities} {n : Nat} (he : Reachable e) (h : e.allocate = .ok (n, e')) :
    Reachable e'
  | remove {e e' : Entities} {number : Int} (he : Reachable e) (h : e.remove? number = some e') :
    Reachable e'
  | write {e e' : Entities} {p : Nat} {w : Int32} (he : Reachable e) (h : e.write p w = .ok e') :
    Reachable e'

/-- The words are cut into blocks, and the world is there. -/
structure Sound (e : Entities) : Prop where
  size_words : e.words.size = e.free.size * e.fields
  world : e.free[0]? = some false

/-- There is always the world. -/
theorem Sound.size_pos (h : e.Sound) : 0 < e.free.size :=
  (Array.getElem?_eq_some_iff.mp h.world).1

theorem Sound.occupy {n : Nat} (h : e.Sound) : (e.occupy n).Sound where
  size_words := by
    show (zeroFrom e.words _ _).size = (e.free.setIfInBounds n false).size * e.fields
    rw [size_zeroFrom, Array.size_setIfInBounds]
    exact h.size_words
  world := by
    show (e.free.setIfInBounds n false)[0]? = some false
    have hpos := h.size_pos
    by_cases hn : n = 0
    · rw [hn, Array.getElem?_setIfInBounds_self_of_lt hpos]
    · rw [Array.getElem?_setIfInBounds_ne hn, h.world]

theorem Sound.grow (h : e.Sound) : e.grow.Sound where
  size_words := by
    show (e.words ++ Array.replicate e.fields 0).size = (e.free.push true).size * e.fields
    rw [Array.size_append, Array.size_replicate, Array.size_push, h.size_words, Nat.succ_mul]
  world := by
    show (e.free.push true)[0]? = some false
    have hpos := h.size_pos
    rw [Array.getElem?_push, if_neg (by omega), h.world]

/-- Allocating keeps the entities sound, whether a free one is used or the blocks grow. -/
theorem Sound.allocate {n : Nat} (he : e.Sound) (h : e.allocate = .ok (n, e')) : e'.Sound := by
  rcases allocate_eq_ok h with ⟨-, -, rfl⟩ | ⟨-, -, rfl⟩
  · exact he.occupy
  · exact he.grow.occupy

theorem Sound.remove {number : Int} (he : e.Sound) (h : e.remove? number = some e') : e'.Sound := by
  obtain ⟨hpos, -, rfl⟩ := remove?_eq_some h
  constructor
  · show (zeroFrom e.words _ _).size = (e.free.setIfInBounds _ true).size * e.fields
    rw [size_zeroFrom, Array.size_setIfInBounds]
    exact he.size_words
  · show (e.free.setIfInBounds _ true)[0]? = some false
    rw [Array.getElem?_setIfInBounds_ne (by omega), he.world]

theorem Sound.write {p : Nat} {w : Int32} (he : e.Sound) (h : e.write p w = .ok e') : e'.Sound := by
  obtain ⟨-, rfl⟩ := write_eq_ok h
  exact ⟨Array.size_setIfInBounds.trans he.size_words, he.world⟩

/-- All reachable entities are sound. -/
theorem Reachable.sound (h : e.Reachable) : e.Sound := by
  induction h with
  | new fields max =>
    refine ⟨?_, rfl⟩
    show (Array.replicate fields (0 : Int32)).size = 1 * fields
    rw [Array.size_replicate, Nat.one_mul]
  | allocate _ h ih => exact ih.allocate h
  | remove _ h ih => exact ih.remove h
  | write _ h ih => exact ih.write h

/-! ## The block of the world -/

/-- The fields of the world in `e'` are those in `e`. -/
structure SameWorld (e e' : Entities) : Prop where
  fields_eq : e'.fields = e.fields
  words_eq : ∀ i < e.fields, e'.words[i]? = e.words[i]?

theorem SameWorld.refl (e : Entities) : SameWorld e e := ⟨rfl, fun _ _ => rfl⟩

theorem SameWorld.trans {e'' : Entities} (h : SameWorld e e') (h' : SameWorld e' e'') :
    SameWorld e e'' :=
  ⟨h'.fields_eq.trans h.fields_eq,
    fun i hi => (h'.words_eq i (h.fields_eq ▸ hi)).trans (h.words_eq i hi)⟩

theorem sameWorld_clear {n : Nat} (e : Entities) (h : 1 ≤ n) : SameWorld e (e.clear n) :=
  ⟨rfl, fun _ hi => getElem?_zeroFrom_of_lt _ _ (Nat.lt_of_lt_of_le hi (e.fields_le_mul h))⟩

/-- The world is never the entity that is allocated. -/
theorem sameWorld_allocate {n : Nat} (he : e.Sound) (h : e.allocate = .ok (n, e')) :
    SameWorld e e' := by
  rcases allocate_eq_ok h with ⟨hn, -, rfl⟩ | ⟨rfl, -, rfl⟩
  · have hclear := sameWorld_clear { e with free := e.free.setIfInBounds n false } hn
    exact ⟨rfl, hclear.words_eq⟩
  · have hclear :=
      sameWorld_clear { e.grow with free := e.grow.free.setIfInBounds e.free.size false } he.size_pos
    refine ⟨rfl, fun i hi => (hclear.words_eq i hi).trans ?_⟩
    show (e.words ++ Array.replicate e.fields 0)[i]? = e.words[i]?
    have hlt : i < e.words.size := by
      rw [he.size_words]
      exact Nat.lt_of_lt_of_le hi (e.fields_le_mul he.size_pos)
    rw [Array.getElem?_append_left hlt]

/-- The world cannot be removed. -/
theorem sameWorld_remove {number : Int} (h : e.remove? number = some e') : SameWorld e e' := by
  obtain ⟨hpos, -, rfl⟩ := remove?_eq_some h
  have hclear := sameWorld_clear (n := number.toNat)
    { e with free := e.free.setIfInBounds number.toNat true } (by omega)
  exact ⟨rfl, hclear.words_eq⟩

/-- Writing behind the block of the world does not change it. -/
theorem sameWorld_write {p : Nat} {w : Int32} (hp : e.fields ≤ p) (h : e.write p w = .ok e') :
    SameWorld e e' := by
  obtain ⟨-, rfl⟩ := write_eq_ok h
  exact ⟨rfl, fun i hi => Array.getElem?_setIfInBounds_ne (by omega)⟩

theorem read_congr {p : Nat} (hfields : e'.fields = e.fields) (hword : e'.words[p]? = e.words[p]?) :
    e'.read p = e.read p := by
  unfold read outside
  rw [hword, hfields]

theorem get_congr {number field : Int}
    (hpointer : e'.pointer number field = e.pointer number field)
    (hread : ∀ p, e.pointer number field = .ok p → e'.read p = e.read p) :
    e'.get number field = e.get number field := by
  -- The bind is opened by name: compared as they stand, the two sides would unfold down to words.
  simp only [get, hpointer, bind, Except.bind]
  cases hp : e.pointer number field with
  | error c => dsimp only
  | ok p => exact hread p hp

/-- Reading the world depends on its block only. -/
theorem SameWorld.get_eq (h : SameWorld e e') (he : e.Sound) (he' : e'.Sound) (field : Int) :
    e'.get 0 field = e.get 0 field := by
  have hpos := he.size_pos
  have hpos' := he'.size_pos
  refine get_congr ?_ fun p hp => ?_
  · unfold pointer
    rw [h.fields_eq]
    simp [Nat.ne_of_gt hpos, Nat.ne_of_gt hpos']
  · obtain ⟨-, -, -, hfield, hp⟩ := pointer_eq_ok hp
    rw [Int.toNat_zero, Nat.zero_mul, Nat.zero_add] at hp
    exact read_congr h.fields_eq (h.words_eq p (hp ▸ hfield))

end Entities

end QuakeVm
