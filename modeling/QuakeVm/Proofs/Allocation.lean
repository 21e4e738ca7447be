import QuakeVm.Builtin.Entity
import QuakeVm.Proofs.Action
import QuakeVm.Proofs.Entities
import Mathlib.Logic.Function.Iterate

/-!
# Making and removing entities

A program sees its entities through two questions: whether a number is free (`isFree`), and what a
field holds (`get`). This file says what making, removing and visiting entities does in terms of
these.

A new block is free, and so is every number behind the last block. Growing the array therefore
changes nothing that `isFree` says, and what remains of making an entity is to occupy a free block
(`isFree_occupy`, `get_occupy_self`, `get_occupy_of_ne`), whether it was there before or not.

Whatever a program does, the blocks stay in step with the words and within their number (`Within`).
A block that was written through a pointer after its entity was removed is cleared when it is taken
again, so that nobody sees what was left there.
-/

namespace QuakeVm

namespace Entities

variable {e e' : Entities}

/-! ## Free numbers -/

theorem isFree_natCast (e : Entities) (n : Nat) : e.isFree n = e.free[n]?.getD true := by
  simp [isFree, Int.not_lt.mpr (Int.natCast_nonneg n), Array.getD_eq_getD_getElem?]

theorem isFree_of_neg {number : Int} (h : number < 0) : e.isFree number = true := by
  simp [isFree, h]

/-- A number that is not free is that of a block. -/
theorem isFree_eq_false_iff {number : Int} :
    e.isFree number = false ↔ 0 ≤ number ∧ e.free[number.toNat]? = some false := by
  by_cases hneg : number < 0
  · simp [isFree_of_neg hneg, Int.not_le.mpr hneg]
  · obtain ⟨n, rfl⟩ := Int.eq_ofNat_of_zero_le (Int.not_lt.mp hneg)
    rw [isFree_natCast, Int.toNat_natCast]
    cases e.free[n]? <;> simp

theorem lt_size_of_isFree_eq_false {n : Nat} (h : e.isFree n = false) : n < e.size :=
  (Array.getElem?_eq_some_iff.mp (isFree_eq_false_iff.mp h).2).1

theorem isFree_size (e : Entities) : e.isFree e.size = true := by
  rw [isFree_natCast, size, Array.getElem?_eq_none (Nat.le_refl _)]
  rfl

/-! ## Fields and blocks -/

/-- A place in the block of `n` is not in the block of another number. -/
theorem not_in_block {k n field fields : Nat} (hfield : field < fields) (hne : k ≠ n) :
    k * fields + field < n * fields ∨ n * fields + fields ≤ k * fields + field := by
  rcases Nat.lt_or_gt_of_ne hne with hlt | hgt
  · have hle : (k + 1) * fields ≤ n * fields := Nat.mul_le_mul_right fields hlt
    rw [Nat.succ_mul] at hle
    omega
  · have hle : (n + 1) * fields ≤ k * fields := Nat.mul_le_mul_right fields hgt
    rw [Nat.succ_mul] at hle
    omega

/-- There is a pointer to each field of each block, and to nothing else. -/
theorem pointer_eq_ok_iff {number field : Int} {p : Nat} :
    e.pointer number field = .ok p ↔
      0 ≤ number ∧ 0 ≤ field ∧ number.toNat < e.size ∧ field.toNat < e.fields ∧
        p = number.toNat * e.fields + field.toNat := by
  refine ⟨pointer_eq_ok, ?_⟩
  rintro ⟨hnumber, hfield, hsize, hfields, rfl⟩
  unfold pointer
  unfold size at hsize
  rw [if_neg]
  simp only [Bool.or_eq_true, decide_eq_true_eq, not_or]
  omega

theorem pointer_natCast {n field : Nat} (hn : n < e.size) (hfield : field < e.fields) :
    e.pointer n field = .ok (n * e.fields + field) := by
  simp [pointer_eq_ok_iff, hn, hfield]

theorem pointer_cases (e : Entities) (number field : Int) :
    (∃ p, e.pointer number field = .ok p) ∨
      e.pointer number field = .error (.badEntity number) := by
  unfold pointer
  split
  · exact Or.inr rfl
  · exact Or.inl ⟨_, rfl⟩

theorem pointer_congr {number : Int} (field : Int) (hfields : e'.fields = e.fields)
    (hsize : number.toNat < e'.size ↔ number.toNat < e.size) :
    e'.pointer number field = e.pointer number field := by
  unfold pointer
  unfold size at hsize
  simp only [← Nat.not_lt, hfields, hsize]

/-- A pointer points to a word. -/
theorem Sound.lt_size_words {number field : Int} {p : Nat} (he : e.Sound)
    (hp : e.pointer number field = .ok p) : p < e.words.size := by
  obtain ⟨-, -, hnumber, hfield, rfl⟩ := pointer_eq_ok hp
  have hle : (number.toNat + 1) * e.fields ≤ e.free.size * e.fields :=
    Nat.mul_le_mul_right _ hnumber
  rw [Nat.succ_mul] at hle
  rw [he.size_words]
  omega

theorem get_of_pointer {number field : Int} {p : Nat} (hp : e.pointer number field = .ok p) :
    e.get number field = e.read p := by
  simp only [get, hp, bind, Except.bind]

theorem get_of_error {number field : Int} {c : Cause} (hp : e.pointer number field = .error c) :
    e.get number field = .error c := by
  simp only [get, hp, bind, Except.bind]

theorem read_eq_ok_iff {p : Nat} {w : Int32} : e.read p = .ok w ↔ e.words[p]? = some w := by
  unfold read
  cases e.words[p]? <;> simp

/-! ## Occupying a block -/

theorem getElem?_zeroFrom_of_le (words : Array Int32) {start n i : Nat} (h : start + n ≤ i) :
    (zeroFrom words start n)[i]? = words[i]? := by
  induction n generalizing words start with
  | zero => rfl
  | succ n ih => rw [zeroFrom, ih _ (by omega), Array.getElem?_setIfInBounds_ne (by omega)]

theorem getElem?_zeroFrom_of_mem (words : Array Int32) {start n i : Nat} (hstart : start ≤ i)
    (hend : i < start + n) (hi : i < words.size) : (zeroFrom words start n)[i]? = some 0 := by
  induction n generalizing words start with
  | zero => omega
  | succ n ih =>
    rw [zeroFrom]
    by_cases hfirst : start = i
    · subst hfirst
      rw [getElem?_zeroFrom_of_lt _ _ (Nat.lt_succ_self _)]
      exact Array.getElem?_setIfInBounds_self_of_lt hi
    · exact ih _ (by omega) (by omega) (by simpa using hi)

/-- Clearing a block leaves the words of the others. -/
theorem getElem?_clear_of_ne {n k field : Nat} (hfield : field < e.fields) (hne : k ≠ n) :
    (e.clear n).words[k * e.fields + field]? = e.words[k * e.fields + field]? := by
  show (zeroFrom e.words (n * e.fields) e.fields)[_]? = _
  rcases not_in_block hfield hne with hlt | hle
  · exact getElem?_zeroFrom_of_lt _ _ hlt
  · exact getElem?_zeroFrom_of_le _ hle

theorem isFree_occupy {n : Nat} (hn : n < e.size) : (e.occupy n).isFree n = false := by
  rw [isFree_natCast]
  show ((e.free.setIfInBounds n false)[n]?).getD true = false
  rw [Array.getElem?_setIfInBounds_self_of_lt hn]
  rfl

theorem isFree_occupy_of_ne {n : Nat} {number : Int} (hne : number ≠ n) :
    (e.occupy n).isFree number = e.isFree number := by
  by_cases hneg : number < 0
  · rw [isFree_of_neg hneg, isFree_of_neg hneg]
  · obtain ⟨k, rfl⟩ := Int.eq_ofNat_of_zero_le (Int.not_lt.mp hneg)
    rw [isFree_natCast, isFree_natCast]
    show ((e.free.setIfInBounds n false)[k]?).getD true = _
    rw [Array.getElem?_setIfInBounds_ne (by omega)]

@[simp] theorem size_occupy (e : Entities) (n : Nat) : (e.occupy n).size = e.size :=
  Array.size_setIfInBounds

/-- All fields of an entity that takes a block are zero. -/
theorem get_occupy_self {n field : Nat} (he : e.Sound) (hn : n < e.size)
    (hfield : field < e.fields) :
    (e.occupy n).get n field = .ok 0 := by
  have hp : e.pointer n field = .ok (n * e.fields + field) := pointer_natCast hn hfield
  have hp' : (e.occupy n).pointer n field = .ok (n * e.fields + field) :=
    pointer_natCast ((size_occupy e n).symm ▸ hn) hfield
  rw [get_of_pointer hp', read_eq_ok_iff]
  exact getElem?_zeroFrom_of_mem _ (Nat.le_add_right _ _) (Nat.add_lt_add_left hfield _)
    (he.lt_size_words hp)

/-- The fields of the other entities stay. -/
theorem get_occupy_of_ne {n : Nat} {number : Int} (hne : number ≠ n) (field : Int) :
    (e.occupy n).get number field = e.get number field := by
  refine get_congr (pointer_congr field rfl (by rw [size_occupy])) fun p hp => ?_
  obtain ⟨hnumber, -, -, hfield, rfl⟩ := pointer_eq_ok hp
  exact read_congr rfl (getElem?_clear_of_ne hfield (by omega))

/-! ## Growing -/

@[simp] theorem size_grow (e : Entities) : e.grow.size = e.size + 1 := Array.size_push true

/-- A new block is as free as it was before. -/
theorem isFree_grow (e : Entities) (number : Int) : e.grow.isFree number = e.isFree number := by
  by_cases hneg : number < 0
  · rw [isFree_of_neg hneg, isFree_of_neg hneg]
  · obtain ⟨n, rfl⟩ := Int.eq_ofNat_of_zero_le (Int.not_lt.mp hneg)
    rw [isFree_natCast, isFree_natCast]
    show ((e.free.push true)[n]?).getD true = _
    rw [Array.getElem?_push]
    split
    next hlast =>
      rw [hlast, Array.getElem?_eq_none (Nat.le_refl _)]
      rfl
    next => rfl

theorem get_grow_of_ne {number : Int} (he : e.Sound) (hne : number ≠ e.size) (field : Int) :
    e.grow.get number field = e.get number field := by
  have hpos : 0 < e.size := he.size_pos
  have hsize : number.toNat < e.grow.size ↔ number.toNat < e.size := by
    rw [size_grow]
    omega
  refine get_congr (pointer_congr field rfl hsize) fun p hp => ?_
  refine read_congr rfl ?_
  show (e.words ++ Array.replicate e.fields 0)[p]? = e.words[p]?
  rw [Array.getElem?_append_left (he.lt_size_words hp)]

/-! ## The first block of a kind -/

/-- Looking for a mark from a place on finds the first one there, or there is none. -/
theorem findIdx?_drop_cases (l : List Bool) (b : Bool) (n : Nat) :
    (∃ k, n ≤ k ∧ l[k]? = some b ∧ (∀ j, n ≤ j → j < k → l[j]? = some (!b)) ∧
      ((l.drop n).findIdx? (· == b)).map (n + ·) = some k) ∨
    (∀ k, n ≤ k → l[k]? ≠ some b) ∧ ((l.drop n).findIdx? (· == b)).map (n + ·) = none := by
  cases hfirst : (l.drop n).findIdx? (· == b) with
  | none =>
    refine Or.inr ⟨fun k hk hb => ?_, rfl⟩
    have hmem : b ∈ l.drop n := by
      refine List.mem_of_getElem? (i := k - n) ?_
      rw [List.getElem?_drop, show n + (k - n) = k by omega, hb]
    have hne := List.findIdx?_eq_none_iff.mp hfirst b hmem
    simp at hne
  | some i =>
    obtain ⟨hlt, hfound, hbefore⟩ := List.findIdx?_eq_some_iff_getElem.mp hfirst
    refine Or.inl ⟨n + i, Nat.le_add_right n i, ?_, fun j hj hji => ?_, rfl⟩
    · rw [← List.getElem?_drop, List.getElem?_eq_getElem hlt]
      exact congrArg some (by simpa using hfound)
    · have hlt' : j - n < (l.drop n).length := by omega
      have hnot := hbefore (j - n) (by omega)
      rw [show j = n + (j - n) by omega, ← List.getElem?_drop, List.getElem?_eq_getElem hlt']
      exact congrArg some (Bool.eq_not.mpr (by simpa using hnot))

theorem firstFree?_eq_findIdx? (n : Nat) (l : List Bool) :
    firstFree? n l = (l.findIdx? (· == true)).map (n + ·) := by
  induction l generalizing n with
  | nil => rfl
  | cons b rest ih =>
    rw [firstFree?, List.findIdx?_cons, ih]
    cases b with
    | true => simp
    | false => simp [Option.map_map, Function.comp_def, Nat.add_assoc, Nat.add_comm 1]

theorem liveFrom_eq_findIdx? (n : Nat) (l : List Bool) :
    liveFrom n l = ((l.findIdx? (· == false)).map (n + ·)).getD 0 := by
  induction l generalizing n with
  | nil => rfl
  | cons b rest ih =>
    rw [liveFrom, List.findIdx?_cons, ih]
    cases b with
    | true => simp [Option.map_map, Function.comp_def, Nat.add_assoc, Nat.add_comm 1]
    | false => simp

/-! ## Which number is allocated -/

/-- The number is the first free one behind the world. All numbers behind the last block are
free. -/
structure FirstFree (e : Entities) (n : Nat) : Prop where
  pos : 0 < n
  le_size : n ≤ e.size
  isFree : e.isFree n = true
  live : ∀ k : Nat, 0 < k → k < n → e.isFree k = false

/-- The three ways in which making an entity ends. -/
theorem allocate_cases (e : Entities) :
    (∃ n, e.FirstFree n ∧ n < e.size ∧ e.allocate = .ok (n, e.occupy n)) ∨
    (∀ n : Nat, 0 < n → n < e.size → e.isFree n = false) ∧
      (e.size < e.max ∧ e.allocate = .ok (e.size, e.grow.occupy e.size) ∨
        e.max ≤ e.size ∧ e.allocate = .error (.noFreeEntity e.max)) := by
  unfold allocate
  rw [firstFree?_eq_findIdx?]
  rcases findIdx?_drop_cases e.free.toList true 1 with
    ⟨n, hn, hfree, hlive, hfirst⟩ | ⟨hnone, hfirst⟩
  · have hlt : n < e.size := (Array.getElem?_eq_some_iff.mp (Array.getElem?_toList ▸ hfree)).1
    rw [hfirst]
    refine Or.inl ⟨n, ⟨hn, Nat.le_of_lt hlt, ?_, fun k hk hkn => ?_⟩, hlt, rfl⟩
    · rw [isFree_natCast, ← Array.getElem?_toList, hfree]
      rfl
    · rw [isFree_natCast, ← Array.getElem?_toList, hlive k hk hkn]
      rfl
  · rw [hfirst]
    refine Or.inr ⟨fun n hn hlt => ?_, ?_⟩
    · have hne := hnone n hn
      rw [Array.getElem?_toList, Array.getElem?_eq_getElem hlt] at hne
      rw [isFree_natCast, Array.getElem?_eq_getElem hlt]
      simpa using hne
    · dsimp only
      by_cases hmax : e.max ≤ e.size
      · exact Or.inr ⟨hmax, if_pos hmax⟩
      · exact Or.inl ⟨Nat.lt_of_not_le hmax, if_neg hmax⟩

theorem allocate_eq_error_iff {c : Cause} :
    e.allocate = .error c ↔
      (e.max ≤ e.size ∧ ∀ n : Nat, 0 < n → n < e.size → e.isFree n = false) ∧
        c = .noFreeEntity e.max := by
  rcases allocate_cases e with ⟨n, hfirst, hlt, hok⟩ | ⟨hlive, ⟨hlt, hok⟩ | ⟨hle, herror⟩⟩
  · rw [hok]
    refine ⟨nofun, ?_⟩
    rintro ⟨⟨-, hlive⟩, -⟩
    have hbusy := hlive n hfirst.pos hlt
    rw [hfirst.isFree] at hbusy
    cases hbusy
  · rw [hok]
    refine ⟨nofun, ?_⟩
    rintro ⟨⟨hle, -⟩, -⟩
    omega
  · rw [herror]
    constructor
    · intro h
      cases h
      exact ⟨⟨hle, hlive⟩, rfl⟩
    · rintro ⟨-, rfl⟩
      rfl

/-- The number of a new entity is the first free one. -/
theorem firstFree_of_allocate {n : Nat} (he : e.Sound) (h : e.allocate = .ok (n, e')) :
    e.FirstFree n := by
  rcases allocate_cases e with ⟨k, hfirst, -, hok⟩ | ⟨hlive, ⟨-, hok⟩ | ⟨-, herror⟩⟩
  · rw [h] at hok
    cases hok
    exact hfirst
  · rw [h] at hok
    cases hok
    exact ⟨he.size_pos, Nat.le_refl _, isFree_size e, hlive⟩
  · rw [h] at herror
    cases herror

/-- A new entity occupies a block of entities that look the same, whether the block was there before
or not. -/
theorem exists_occupy {n : Nat} (he : e.Sound) (h : e.allocate = .ok (n, e')) :
    ∃ e₁ : Entities, e₁.Sound ∧ e₁.fields = e.fields ∧ n < e₁.size ∧ e' = e₁.occupy n ∧
      (∀ number, e₁.isFree number = e.isFree number) ∧
      ∀ number : Int, number ≠ n → ∀ field, e₁.get number field = e.get number field := by
  rcases allocate_cases e with ⟨k, -, hlt, hok⟩ | ⟨-, ⟨-, hok⟩ | ⟨-, herror⟩⟩
  · rw [h] at hok
    cases hok
    exact ⟨e, he, rfl, hlt, rfl, fun _ => rfl, fun _ _ _ => rfl⟩
  · rw [h] at hok
    cases hok
    exact ⟨e.grow, he.grow, rfl, by simp, rfl, e.isFree_grow,
      fun number hne => get_grow_of_ne he hne⟩
  · rw [h] at herror
    cases herror

/-! ## Which numbers can be removed -/

theorem isSome_remove?_iff {number : Int} :
    (e.remove? number).isSome ↔ 0 < number ∧ e.isFree number = false := by
  unfold remove?
  by_cases hpos : 0 < number
  · cases e.isFree number <;> simp [hpos, Int.not_le.mpr hpos]
  · simp [hpos, Int.not_lt.mp hpos]

/-! ## Visiting entities -/

/-- The next entity is the first live one behind, if there is one. -/
theorem next_cases (e : Entities) (n : Nat) :
    (∃ k, n < k ∧ e.isFree k = false ∧ (∀ j : Nat, n < j → j < k → e.isFree j = true) ∧
      e.next n = k) ∨
    (∀ k : Nat, n < k → e.isFree k = true) ∧ e.next n = 0 := by
  have hstart : e.next n = liveFrom (n + 1) (e.free.toList.drop (n + 1)) := by
    unfold next
    rw [if_neg (by omega), Int.toNat_natCast]
  rw [hstart, liveFrom_eq_findIdx?]
  rcases findIdx?_drop_cases e.free.toList false (n + 1) with
    ⟨k, hk, hlive, hfree, hfirst⟩ | ⟨hnone, hfirst⟩
  · rw [hfirst]
    refine Or.inl ⟨k, hk, ?_, fun j hj hjk => ?_, rfl⟩
    · rw [isFree_natCast, ← Array.getElem?_toList, hlive]
      rfl
    · rw [isFree_natCast, ← Array.getElem?_toList, hfree j hj hjk]
      rfl
  · rw [hfirst]
    refine Or.inr ⟨fun k hk => ?_, rfl⟩
    have hne := hnone k hk
    rw [Array.getElem?_toList] at hne
    rw [isFree_natCast]
    cases hentry : e.free[k]? with
    | none => rfl
    | some b => cases b <;> simp_all

/-- Going on from `n` visits the numbers of a list one after the other, if the list has the live
numbers behind `n` in their order. -/
theorem iterate_next {n : Nat} {l : List Nat} (hsorted : l.Pairwise (· < ·))
    (hl : ∀ k : Nat, k ∈ l ↔ n < k ∧ e.isFree k = false) {i : Nat} (hi : i ≤ l.length) :
    (fun k : Nat => e.next k)^[i + 1] n = l.getD i 0 := by
  -- Induction on the list: its head is the next number, and its tail has those behind the head.
  induction l generalizing n i with
  | nil =>
    obtain rfl : i = 0 := Nat.le_zero.mp hi
    rcases next_cases e n with ⟨k, hk, hlive, -, -⟩ | ⟨-, hnext⟩
    · exact absurd ((hl k).mpr ⟨hk, hlive⟩) List.not_mem_nil
    · exact hnext
  | cons k rest ih =>
    obtain ⟨hbehind, hrest⟩ := List.pairwise_cons.mp hsorted
    obtain ⟨hk, hlive⟩ := (hl k).mp List.mem_cons_self
    have hnext : e.next n = k := by
      rcases next_cases e n with ⟨j, hj, hjlive, hfree, hnext⟩ | ⟨hnone, -⟩
      · rw [hnext]
        rcases List.mem_cons.mp ((hl j).mpr ⟨hj, hjlive⟩) with rfl | hmem
        · rfl
        · have hbusy := hfree k hk (hbehind j hmem)
          rw [hlive] at hbusy
          cases hbusy
      · have hbusy := hnone k hk
        rw [hlive] at hbusy
        cases hbusy
    rw [Function.iterate_succ_apply, hnext]
    cases i with
    | zero => rfl
    | succ i =>
      refine ih hrest (fun j => ⟨fun hj => ?_, fun ⟨hkj, hjlive⟩ => ?_⟩) (Nat.le_of_succ_le_succ hi)
      · exact ⟨hbehind j hj, ((hl j).mp (List.mem_cons_of_mem k hj)).2⟩
      · have hmem := (hl j).mpr ⟨Nat.lt_trans hk hkj, hjlive⟩
        rcases List.mem_cons.mp hmem with rfl | hmem
        · omega
        · exact hmem

/-- The entities other than the world, in their order. -/
def living (e : Entities) : List Nat :=
  (List.range e.size).filter fun n => 0 < n && !e.isFree n

theorem mem_living {n : Nat} : n ∈ e.living ↔ 0 < n ∧ e.isFree n = false := by
  simp only [living, List.mem_filter, List.mem_range, Bool.and_eq_true, decide_eq_true_eq,
    Bool.not_eq_true']
  exact ⟨fun h => h.2, fun h => ⟨lt_size_of_isFree_eq_false h.2, h⟩⟩

theorem pairwise_living (e : Entities) : e.living.Pairwise (· < ·) :=
  List.pairwise_lt_range.filter _

/-! ## Whatever a program does -/

/-- What a program does to its entities. A field is set by a write through its pointer, and a
pointer may still be used when its entity has been removed. -/
inductive Operation where
  | allocate
  | remove (number : Int)
  | write (pointer : Nat) (w : Int32)
  deriving Repr, DecidableEq

/-- The entities after an operation. One that fails leaves them as they are. -/
def apply (e : Entities) : Operation → Entities
  | .allocate =>
    match e.allocate with
    | .ok (_, e') => e'
    | .error _ => e
  | .remove number => (e.remove? number).getD e
  | .write pointer w =>
    match e.write pointer w with
    | .ok e' => e'
    | .error _ => e

/-- The entities of a program after some operations. -/
def after (fields max : Nat) (ops : List Operation) : Entities := ops.foldl apply (.new fields max)

/-- An operation fails and leaves the entities as they are, or it succeeds. -/
theorem apply_cases (e : Entities) (op : Operation) :
    e.apply op = e ∨ (∃ n, e.allocate = .ok (n, e.apply op)) ∨
      (∃ number, e.remove? number = some (e.apply op)) ∨
      ∃ p w, e.write p w = .ok (e.apply op) := by
  cases op with
  | allocate =>
    cases h : e.allocate with
    | error c => simp [apply, h]
    | ok r => exact Or.inr (Or.inl ⟨r.1, by simp [apply, h]⟩)
  | remove number =>
    cases h : e.remove? number with
    | none => simp [apply, h]
    | some e' => exact Or.inr (Or.inr (Or.inl ⟨number, by simp [apply, h]⟩))
  | write p w =>
    cases h : e.write p w with
    | error c => simp [apply, h]
    | ok e' => exact Or.inr (Or.inr (Or.inr ⟨p, w, by simp [apply, h]⟩))

/-- The blocks are in step with the words, and there are no more of them than there may be. -/
structure Within (fields max : Nat) (e : Entities) : Prop where
  sound : e.Sound
  fields_eq : e.fields = fields
  max_eq : e.max = Nat.max max 1
  size_le : e.size ≤ Nat.max max 1

section Within

variable {fields max : Nat}

theorem within_new (fields max : Nat) : (new fields max).Within fields max where
  sound := (Reachable.new fields max).sound
  fields_eq := rfl
  max_eq := rfl
  size_le := Nat.le_max_right max 1

theorem Within.allocate {n : Nat} (he : e.Within fields max) (h : e.allocate = .ok (n, e')) :
    e'.Within fields max := by
  have hsound := he.sound.allocate h
  rcases allocate_eq_ok h with ⟨-, -, rfl⟩ | ⟨rfl, hlt, rfl⟩
  · exact ⟨hsound, he.fields_eq, he.max_eq, (size_occupy e n).symm ▸ he.size_le⟩
  · refine ⟨hsound, he.fields_eq, he.max_eq, ?_⟩
    rw [size_occupy, size_grow, ← he.max_eq]
    exact hlt

theorem Within.remove {number : Int} (he : e.Within fields max) (h : e.remove? number = some e') :
    e'.Within fields max := by
  have hsound := he.sound.remove h
  obtain ⟨-, -, rfl⟩ := remove?_eq_some h
  refine ⟨hsound, he.fields_eq, he.max_eq, ?_⟩
  show (e.free.setIfInBounds number.toNat true).size ≤ _
  rw [Array.size_setIfInBounds]
  exact he.size_le

theorem Within.write {p : Nat} {w : Int32} (he : e.Within fields max) (h : e.write p w = .ok e') :
    e'.Within fields max := by
  have hsound := he.sound.write h
  obtain ⟨-, rfl⟩ := write_eq_ok h
  exact ⟨hsound, he.fields_eq, he.max_eq, he.size_le⟩

theorem Within.apply (he : e.Within fields max) (op : Operation) :
    (e.apply op).Within fields max := by
  rcases apply_cases e op with hsame | ⟨n, h⟩ | ⟨number, h⟩ | ⟨p, w, h⟩
  · rw [hsame]
    exact he
  · exact he.allocate h
  · exact he.remove h
  · exact he.write h

theorem within_after (fields max : Nat) (ops : List Operation) :
    (after fields max ops).Within fields max := by
  have hfold (ops : List Operation) (e : Entities) (he : e.Within fields max) :
      (ops.foldl Entities.apply e).Within fields max := by
    induction ops generalizing e with
    | nil => exact he
    | cons op ops ih => exact ih _ (he.apply op)
  exact hfold ops _ (within_new fields max)

end Within

/-! ## The builtins -/

section Builtins

open QuakeVm.Action

theorem spawn_of_ok {a : Activation} {n : Nat} (h : a.machine.entities.allocate = .ok (n, e)) :
    Builtins.spawn a = .ok () (a.mapMachine fun m =>
      { m with entities := e, registers := m.registers.set returnRegister (Int32.ofNat n) }) := by
  unfold Builtins.spawn
  rw [bind_apply, machine_apply]
  dsimp only
  rw [h]
  rfl

theorem spawn_of_error {a : Activation} {c : Cause} (h : a.machine.entities.allocate = .error c) :
    Builtins.spawn a = .error (.ofCause c) a := by
  unfold Builtins.spawn
  rw [bind_apply, machine_apply]
  dsimp only
  rw [h]
  rfl

theorem remove_of_some {a : Activation}
    (h : a.machine.entities.remove? (a.machine.registers.get (parameter 0)).toInt = some e) :
    Builtins.remove a = .ok () (a.mapMachine fun m => { m with entities := e }) := by
  unfold Builtins.remove
  rw [bind_apply]
  show (machine >>= _) a = _
  rw [bind_apply, machine_apply]
  dsimp only
  rw [h]
  rfl

theorem remove_of_none {a : Activation}
    (h : a.machine.entities.remove? (a.machine.registers.get (parameter 0)).toInt = none) :
    ∃ text, Builtins.remove a = caution text a := by
  unfold Builtins.remove
  rw [bind_apply]
  show ∃ text, (machine >>= _) a = _
  rw [bind_apply, machine_apply]
  dsimp only
  rw [h]
  exact ⟨_, rfl⟩

end Builtins

/-- **Entities are allocated exactly.** After any sequence of operations the words are those of the
blocks, there are no more blocks than there may be, and the world is there.

Making an entity fails if there are as many blocks as there may be and none behind the world is
free; the builtin leaves everything as it is then. Otherwise the entity gets the first free number,
all its fields are zero, and nothing changes about any other number. The entities that can be
removed are those that are there, without the world. Going on from the world visits exactly these,
in their order, and ends at the world. -/
theorem allocation_exact (fields max : Nat) (ops : List Operation) :
    let e := after fields max ops
    (e.fields = fields ∧ e.words.size = e.size * fields ∧ e.size ≤ Nat.max max 1 ∧
      e.isFree 0 = false) ∧
    ((∃ c, e.allocate = .error c) ↔
      e.size = Nat.max max 1 ∧ ∀ n : Nat, 0 < n → n < e.size → e.isFree n = false) ∧
    (∀ c, e.allocate = .error c → ∀ a : Activation, a.machine.entities = e →
      Builtins.spawn a = .error (.ofCause c) a) ∧
    (∀ n e', e.allocate = .ok (n, e') →
      e.FirstFree n ∧ e'.isFree n = false ∧
      (∀ field : Nat, field < fields → e'.get n field = .ok 0) ∧
      (∀ number : Int, number ≠ n → e'.isFree number = e.isFree number ∧
        ∀ field, e'.get number field = e.get number field) ∧
      ∀ a : Activation, a.machine.entities = e →
        Builtins.spawn a = .ok () (a.mapMachine fun m =>
          { m with entities := e', registers := m.registers.set returnRegister (Int32.ofNat n) })) ∧
    (∀ number, (e.remove? number).isSome ↔ 0 < number ∧ e.isFree number = false) ∧
    ∃ l : List Nat, l.Pairwise (· < ·) ∧ (∀ n : Nat, n ∈ l ↔ 0 < n ∧ e.isFree n = false) ∧
      ∀ i ≤ l.length, (fun n : Nat => e.next n)^[i + 1] 0 = l.getD i 0 := by
  intro e
  obtain ⟨hsound, hfields, hmax, hsize⟩ := within_after fields max ops
  refine ⟨⟨hfields, hfields ▸ hsound.size_words, hsize, ?_⟩, ?_, ?_, ?_, fun _ => isSome_remove?_iff,
    e.living, e.pairwise_living, fun _ => mem_living, fun i hi => ?_⟩
  · exact isFree_eq_false_iff.mpr ⟨Int.le_refl 0, hsound.world⟩
  · have hfull : e.max ≤ e.size ↔ e.size = Nat.max max 1 := by
      rw [hmax]
      exact ⟨Nat.le_antisymm hsize, Nat.le_of_eq ∘ Eq.symm⟩
    simp only [allocate_eq_error_iff, hfull, exists_eq_right]
  · intro c hc a ha
    exact spawn_of_error (ha ▸ hc)
  · intro n e' h
    obtain ⟨e₁, hsound₁, hfields₁, hlt, rfl, hfree, hget⟩ := exists_occupy hsound h
    refine ⟨firstFree_of_allocate hsound h, isFree_occupy hlt, fun field hfield => ?_,
      fun number hne => ⟨?_, fun field => ?_⟩, ?_⟩
    · exact get_occupy_self hsound₁ hlt (by rw [hfields₁, hfields]; exact hfield)
    · rw [isFree_occupy_of_ne hne, hfree]
    · rw [get_occupy_of_ne hne, hget number hne]
    · intro a ha
      exact spawn_of_ok (ha ▸ h)
  · exact iterate_next e.pairwise_living (fun _ => mem_living) hi

end Entities

end QuakeVm
