import QuakeVm.Proofs.BufferMaps

/-!
# Sorting string buffers

Sorting takes the holes out of a buffer and puts its strings in the order of their keys. A key is a
string or its first bytes, so that different strings may have the same one. `StablySorted` says what a
program can rely on then: no string is lost or doubled, the keys go up or down, and strings with the
same key stay in the order that they had.

The comparison of keys is the order of lists of bytes, which is linear (`Bytes.cmp_spec`). All
the rest is about any linear order of keys. In particular turning the comparison around does not turn
strings with the same key around, because it still allows both orders for them (`inOrder_of_sortKey`).
-/

namespace QuakeVm

/-! ## The order of byte strings -/

namespace Bytes

/-- Comparing byte by byte gives the order of lists. -/
theorem cmp_spec (x y : Bytes) : (cmp x y = .lt ↔ x < y) ∧ (cmp x y = .gt ↔ y < x) := by
  fun_induction cmp x y with
  | case1 => simp
  | case2 => simp
  | case3 => simp
  | case4 a as b bs hlt =>
    have hne : b ≠ a := fun heq => UInt8.lt_irrefl b (heq ▸ hlt)
    simp [List.cons_lt_cons_iff, hlt, UInt8.lt_asymm hlt, hne]
  | case5 a as b bs hlt hgt =>
    have hne : a ≠ b := fun heq => UInt8.lt_irrefl b (heq ▸ hgt)
    simp [List.cons_lt_cons_iff, hlt, hgt, hne]
  | case6 a as b bs hlt hgt ih =>
    obtain rfl : a = b := UInt8.le_antisymm (UInt8.not_lt.mp hgt) (UInt8.not_lt.mp hlt)
    simpa using ih

end Bytes

/-! ## Stable sorting -/

/-- A list sorted by keys, up or down, in which what has the same key stands in the order of the list
that was sorted. -/
structure StablySorted (key : Bytes → Bytes) (backward : Bool) (l sorted : List Bytes) : Prop where
  perm : sorted.Perm l
  ordered : sorted.Pairwise fun x y => if backward then key y ≤ key x else key x ≤ key y
  stable : ∀ k, sorted.filter (key · == k) = l.filter (key · == k)

/-- Merge sort leaves elements in their order that may stand in any order. -/
theorem filter_mergeSort {α : Type} {le : α → α → Bool}
    (htrans : ∀ x y z, le x y = true → le y z = true → le x z = true)
    (htotal : ∀ x y, (le x y || le y x) = true) {p : α → Bool}
    (htied : ∀ x y, p x = true → p y = true → le x y = true) (l : List α) :
    (l.mergeSort le).filter p = l.filter p := by
  have hordered : (l.filter p).Pairwise fun x y => le x y = true := by
    apply List.pairwise_of_forall_mem_list
    intro x hx y hy
    exact htied x y (List.mem_filter.mp hx).2 (List.mem_filter.mp hy).2
  have hsublist : (l.filter p).Sublist (l.mergeSort le) :=
    List.sublist_mergeSort htrans htotal hordered List.filter_sublist
  have hkept := hsublist.filter p
  rw [List.filter_filter] at hkept
  simp only [Bool.and_self] at hkept
  exact (hkept.eq_of_length ((List.mergeSort_perm l le).filter p).length_eq.symm).symm

namespace Buffer

variable {n : Int} {backward : Bool} {x y : Bytes}

theorem inOrder_eq_true : inOrder n backward x y = true ↔
    if backward then sortKey n y ≤ sortKey n x else sortKey n x ≤ sortKey n y := by
  unfold inOrder
  cases backward with
  | true => simp [Bytes.cmp_spec, List.not_lt]
  | false => simp [Bytes.cmp_spec, List.not_lt]

theorem inOrder_trans (x y z : Bytes) (hxy : inOrder n backward x y = true)
    (hyz : inOrder n backward y z = true) : inOrder n backward x z = true := by
  rw [inOrder_eq_true] at *
  cases backward with
  | true => exact List.le_trans hyz hxy
  | false => exact List.le_trans hxy hyz

theorem inOrder_total (n : Int) (backward : Bool) (x y : Bytes) :
    (inOrder n backward x y || inOrder n backward y x) = true := by
  rw [Bool.or_eq_true, inOrder_eq_true, inOrder_eq_true]
  cases backward with
  | true => exact List.le_total _ _
  | false => exact List.le_total _ _

/-- Strings with the same key may stand in any order, whichever way is sorted. -/
theorem inOrder_of_sortKey (h : sortKey n x = sortKey n y) : inOrder n backward x y = true := by
  rw [inOrder_eq_true, h]
  cases backward with
  | true => exact List.le_refl _
  | false => exact List.le_refl _

theorem pairwise_mergeSort (n : Int) (backward : Bool) (l : List Bytes) :
    (l.mergeSort (inOrder n backward)).Pairwise fun x y => inOrder n backward x y = true :=
  List.pairwise_mergeSort inOrder_trans (inOrder_total n backward) l

theorem stablySorted_mergeSort (n : Int) (backward : Bool) (l : List Bytes) :
    StablySorted (sortKey n) backward l (l.mergeSort (inOrder n backward)) where
  perm := List.mergeSort_perm l _
  ordered := (pairwise_mergeSort n backward l).imp inOrder_eq_true.mp
  stable k := by
    refine filter_mergeSort inOrder_trans (inOrder_total n backward) ?_ l
    intro x y hx hy
    exact inOrder_of_sortKey ((eq_of_beq hx).trans (eq_of_beq hy).symm)

/-! ## Sorting a buffer -/

theorem live_ofList (l : List Bytes) : (ofList l).live = l := by
  simp [live, ofList, List.filterMap_map]

theorem none_notMem_ofList (l : List Bytes) : none ∉ (ofList l).strings := by
  simp [ofList]

theorem live_sort (b : Buffer) (n : Int) (backward : Bool) :
    (b.sort n backward).live = b.live.mergeSort (inOrder n backward) :=
  live_ofList _

/-- What is sorted stays as it is. -/
theorem sort_sort (b : Buffer) (n : Int) (backward : Bool) :
    (b.sort n backward).sort n backward = b.sort n backward := by
  have hsorted := List.mergeSort_of_pairwise (pairwise_mergeSort n backward b.live)
  unfold sort
  rw [live_ofList, hsorted]

end Buffer

theorem Activation.withBuffer_withBuffer (a : Activation) (handle : Int) (b c : Buffer) :
    (a.withBuffer handle b).withBuffer handle c = a.withBuffer handle c := by
  simp [withBuffer, mapWorld, BufferTable.replace, OwnedTable.put]

open Activation in
/-- **Sorting a buffer is a stable sort of its strings.** A program sorts one of its buffers by the
first bytes of the strings, or by all of them, up or down. The buffer has no hole then. Its strings are
those that it had, sorted by their keys, and where the keys are the same, in the order that they had.
Nothing else changes, and sorting in the same way once more changes nothing at all. -/
theorem buffer_stably_sorted {a : Activation} {handle : Int} {b : Buffer}
    (h : a.buffer? handle = some b) (n : Int) (backward : Bool) : ∃ c,
    Builtins.sortBuffer handle n backward a = .ok true (a.withBuffer handle c) ∧
      (a.withBuffer handle c).buffer? handle = some c ∧ none ∉ c.strings ∧
      StablySorted (fun s => if 0 < n then s.take n.toNat else s) backward b.live c.live ∧
      Builtins.sortBuffer handle n backward (a.withBuffer handle c) =
        .ok true (a.withBuffer handle c) := by
  have hfound : (a.withBuffer handle (b.sort n backward)).buffer? handle =
      some (b.sort n backward) := by
    rw [buffer?_withBuffer h, Function.update_self]
  refine ⟨b.sort n backward, changeBuffer_apply h _ _, hfound, Buffer.none_notMem_ofList _, ?_, ?_⟩
  · rw [Buffer.live_sort]
    exact Buffer.stablySorted_mergeSort n backward b.live
  · rw [Builtins.sortBuffer, changeBuffer_apply hfound, Buffer.sort_sort, withBuffer_withBuffer]

/-- The strings `ab2`, `ab1` and `aa9`, with a hole behind the first. -/
def shelf : Buffer :=
  ⟨#[some [0x61, 0x62, 0x32], none, some [0x61, 0x62, 0x31], some [0x61, 0x61, 0x39]]⟩

/-- The two strings that begin with `ab` stay in their order also when the buffer is sorted down. -/
theorem buffer_stably_sorted_shelf :
    (loading.withBuffer 1 shelf).buffer? 1 = some shelf ∧ ∃ c,
      Builtins.sortBuffer 1 2 true (loading.withBuffer 1 shelf) =
        .ok true ((loading.withBuffer 1 shelf).withBuffer 1 c) ∧ none ∉ c.strings ∧
      c.live.filter (·.take 2 == [0x61, 0x62]) = [[0x61, 0x62, 0x32], [0x61, 0x62, 0x31]] := by
  have hshelf := Activation.buffer?_loading shelf
  obtain ⟨c, hrun, -, hholes, hsorted, -⟩ := buffer_stably_sorted hshelf 2 true
  exact ⟨hshelf, c, hrun, hholes, (hsorted.stable [0x61, 0x62]).trans (by decide)⟩

end QuakeVm
