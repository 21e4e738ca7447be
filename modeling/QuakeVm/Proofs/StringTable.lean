import QuakeVm.StringTable
import Mathlib.Data.List.Basic

/-!
# The string table stays consistent

The table keeps the same facts in several places: the kind of an entry is in the entry itself, in the
bitmap of zoned entries, in the list of released entries and in the index of engine strings.
`Consistent` says that they agree. It holds of a new table and every operation keeps it, so it holds
after every sequence of operations.

## How entries move

Every operation that stores a text first finds room for it, and that room is an entry which is free
or does not exist yet (`allocate_stored`). The bitmap and the index can therefore be changed at one
place without a look at the rest of the table.
-/

namespace QuakeVm

/-! ## Counting marked places -/

/-- Lists with the same marked places have as many of them. -/
theorem countP_eq_of_places {α β : Type} {p : α → Bool} {q : β → Bool} :
    ∀ (l : List α) (l' : List β),
    (∀ i : Nat, (∃ a, l[i]? = some a ∧ p a = true) ↔ ∃ b, l'[i]? = some b ∧ q b = true) →
    l.countP p = l'.countP q
  | [], l', h => by
    symm
    rw [List.countP_nil, List.countP_eq_zero]
    intro b hb hq
    obtain ⟨i, hi⟩ := List.mem_iff_getElem?.mp hb
    obtain ⟨a, ha, -⟩ := (h i).mpr ⟨b, hi, hq⟩
    simp at ha
  | a :: l, [], h => by
    rw [List.countP_nil, List.countP_eq_zero]
    intro x hx hp
    obtain ⟨i, hi⟩ := List.mem_iff_getElem?.mp hx
    obtain ⟨b, hb, -⟩ := (h i).mp ⟨x, hi, hp⟩
    simp at hb
  | a :: l, b :: l', h => by
    -- The first places agree, and the others are the places of the tails.
    have htail := countP_eq_of_places l l' (fun i => by simpa using h (i + 1))
    have hhead : p a = q b := by
      have h0 := h 0
      simp only [List.getElem?_cons_zero, Option.some.injEq, exists_eq_left'] at h0
      exact Bool.eq_iff_iff.mpr h0
    rw [List.countP_cons, List.countP_cons, htail, hhead]

namespace Bytes

theorem zero_notMem_untilNul (s : Bytes) : 0 ∉ untilNul s := by
  intro h
  have hne := (List.all_eq_true.mp List.all_takeWhile) 0 h
  simp at hne

end Bytes

/-- Whether an entry is a zoned string. -/
def Known.isZoned : Known → Bool
  | .zoned _ => true
  | _ => false

namespace StringTable

/-! ## Operations and the invariant -/

/-- What is done to the table of a running program. -/
inductive Operation where
  | temp (s : Bytes)
  | engine (s : Bytes)
  | zoned (parts : List Bytes)
  | unzone (h : Int)
  | unzoneAll
  deriving Repr, DecidableEq

/-- The table after an operation. -/
def apply (t : StringTable) : Operation → StringTable
  | .temp s => (t.temp s).2
  | .engine s => (t.engine s).2
  | .zoned parts => (t.zoned parts).2
  | .unzone h => (t.unzone? h).getD t
  | .unzoneAll => t.unzoneAll.2

/-- The table of a program after some operations. -/
def after (constants : Bytes) (ops : List Operation) : StringTable :=
  ops.foldl apply (ofConstants constants)

/-- The parts of a table agree. -/
structure Consistent (t : StringTable) : Prop where
  /-- The first entries and no others are temporary. -/
  temp_iff : ∀ i : Nat, (∃ s, t.known[i]? = some (.temp s)) ↔ i < Limits.tempStrings
  /-- A temporary string has a limited length. -/
  temp_length : ∀ (i : Nat) (s : Bytes), t.known[i]? = some (.temp s) → s.length ≤ Limits.text
  /-- The next temporary string goes to one of the first entries. -/
  nextTemp_lt : t.nextTemp < Limits.tempStrings
  /-- The bitmap marks the zoned entries. -/
  zone_iff : ∀ i : Nat, t.isZoned i = true ↔ ∃ s, t.known[i]? = some (.zoned s)
  /-- The bitmap consists of words of 32 bits. -/
  zone_dvd : 32 ∣ t.zone.size
  /-- No entry is released twice. -/
  released_nodup : t.released.Nodup
  /-- The released entries are the free ones. -/
  mem_released : ∀ i : Nat, i ∈ t.released ↔ t.known[i]? = some .free
  /-- The index finds the engine strings. -/
  shared_iff : ∀ (s : Bytes) (i : Nat), t.shared.lookup s = some i ↔ t.known[i]? = some (.engine s)
  /-- No string holds a NUL. -/
  nul_notMem : ∀ (i : Nat) (e : Known), t.known[i]? = some e → 0 ∉ e.text

/-! ## The bitmap -/

theorem isZoned_eq (t : StringTable) (i : Nat) : t.isZoned i = t.zone[i]?.getD false := by
  simp [isZoned]

theorem getD_mark (zone : Array Bool) (i j : Nat) :
    (mark zone i).getD j false = (decide (j = i) || zone.getD j false) := by
  have hroom : i < (zone ++ Array.replicate ((i / 32 + 1) * 32 - zone.size) false).size := by
    simp only [Array.size_append, Array.size_replicate]
    omega
  unfold mark
  -- A place behind the old end reads as unmarked, whether the bitmap has grown to it or not.
  by_cases hj : j = i
  · subst hj
    simp only [Array.getD_eq_getD_getElem?, Array.getElem?_setIfInBounds_self_of_lt hroom]
    simp
  · simp only [Array.getD_eq_getD_getElem?, Array.getElem?_setIfInBounds_ne (Ne.symm hj),
      Array.getElem?_append, Array.getElem?_replicate]
    by_cases hin : j < zone.size
    · simp [hin, hj]
    · rw [if_neg hin, Array.getElem?_eq_none (by omega)]
      split <;> simp [hj]

theorem dvd_size_mark {zone : Array Bool} (h : 32 ∣ zone.size) (i : Nat) :
    32 ∣ (mark zone i).size := by
  unfold mark
  simp only [Array.size_setIfInBounds, Array.size_append, Array.size_replicate]
  omega

/-! ## Handles -/

theorem decode_handle (t : StringTable) (i : Nat) :
    t.decode (handle i) = match t.known[i]? with
      | some (.temp _) => .temp i
      | some (.zoned _) => .zoned i
      | some (.engine _) => .engine i
      | some .free | none => .dangling i := by
  have hindex : (-handle i - 1).toNat = i := by unfold handle; omega
  have hnull : ¬ (handle i == 0) = true := by
    simp only [beq_iff_eq]
    unfold handle
    omega
  unfold decode
  rw [if_neg hnull, if_neg (show ¬ 0 < handle i by unfold handle; omega)]
  cases hentry : t.known[i]? with
  | none => simp only [hindex, hentry]
  | some k => cases k <;> simp only [hindex, hentry]

theorem decode_handle_zoned {t : StringTable} {i : Nat} {s : Bytes}
    (hs : t.known[i]? = some (.zoned s)) : t.decode (handle i) = .zoned i := by
  rw [decode_handle, hs]

/-- Only the handle of a zoned entry is decoded as zoned. -/
theorem decode_eq_zoned {t : StringTable} {h : Int} {i : Nat} (hd : t.decode h = .zoned i) :
    h = handle i ∧ ∃ s, t.known[i]? = some (.zoned s) := by
  unfold decode at hd
  split at hd
  · simp at hd
  split at hd
  · simp at hd
  next hnull hpos =>
    simp only [beq_iff_eq] at hnull
    simp only at hd
    split at hd <;> simp only [Handle.zoned.injEq, reduceCtorEq] at hd
    next s hs =>
      subst hd
      exact ⟨by unfold handle; omega, s, hs⟩

/-! ## New entries -/

/-- `t'` is `t` with the entry `e` at a place `i` that was free or not there yet. -/
structure Stored (t t' : StringTable) (i : Nat) (e : Known) : Prop where
  fresh : t.known[i]? = some .free ∨ t.known[i]? = none
  known : ∀ j : Nat, t'.known[j]? = if j = i then some e else t.known[j]?
  nodup : t'.released.Nodup
  mem : ∀ j : Nat, j ∈ t'.released ↔ j ≠ i ∧ j ∈ t.released

theorem allocate_stored {t : StringTable} (hc : t.Consistent) (e : Known) :
    Stored t (t.allocate e).2 (t.allocate e).1 e := by
  unfold allocate
  cases hr : t.released with
  | nil =>
    exact {
      fresh := Or.inr (Array.getElem?_eq_none (Nat.le_refl _))
      known := fun j => Array.getElem?_push
      nodup := List.nodup_nil
      mem := fun j => by simp [hr] }
  | cons i rest =>
    have hnd : (i :: rest).Nodup := hr ▸ hc.released_nodup
    -- The place comes from the list of released entries, so it is free.
    have hfree : t.known[i]? = some .free := (hc.mem_released i).mp (by simp [hr])
    have hlt : i < t.known.size := (Array.getElem?_eq_some_iff.mp hfree).1
    refine ⟨Or.inl hfree, ?_, (List.nodup_cons.mp hnd).2, ?_⟩
    · intro j
      by_cases hj : j = i
      · subst hj
        rw [if_pos rfl]
        exact Array.getElem?_setIfInBounds_self_of_lt hlt
      · rw [if_neg hj]
        exact Array.getElem?_setIfInBounds_ne (Ne.symm hj)
    · intro j
      rw [hr, List.mem_cons]
      constructor
      · intro hj
        refine ⟨?_, Or.inr hj⟩
        rintro rfl
        exact (List.nodup_cons.mp hnd).1 hj
      · rintro ⟨hne, hj | hj⟩
        · exact absurd hj hne
        · exact hj

/-- Storing touches neither the bitmap nor the index. -/
theorem allocate_frame (t : StringTable) (e : Known) :
    (t.allocate e).2.zone = t.zone ∧ (t.allocate e).2.shared = t.shared ∧
      (t.allocate e).2.nextTemp = t.nextTemp := by
  unfold allocate
  split <;> exact ⟨rfl, rfl, rfl⟩

section Stored

variable {t t' : StringTable} {i : Nat} {e : Known}

/-- The places of temporary strings are never free. -/
theorem Stored.tempStrings_le (hs : Stored t t' i e) (hc : t.Consistent) :
    Limits.tempStrings ≤ i := by
  by_contra hlt
  obtain ⟨s, ht⟩ := (hc.temp_iff i).mpr (Nat.lt_of_not_le hlt)
  rcases hs.fresh with hf | hf <;> rw [hf] at ht <;> simp at ht

theorem Stored.temp_iff (hs : Stored t t' i e) (hc : t.Consistent) (he : ∀ s, e ≠ .temp s)
    (j : Nat) : (∃ s, t'.known[j]? = some (.temp s)) ↔ j < Limits.tempStrings := by
  rw [hs.known]
  by_cases hj : j = i
  · subst hj
    have hle := hs.tempStrings_le hc
    simp only [if_pos, Option.some.injEq]
    exact ⟨fun ⟨s, h⟩ => absurd h (he s), fun h => absurd h (by omega)⟩
  · rw [if_neg hj]
    exact hc.temp_iff j

theorem Stored.temp_length (hs : Stored t t' i e) (hc : t.Consistent) (he : ∀ s, e ≠ .temp s)
    (j : Nat) (s : Bytes) (h : t'.known[j]? = some (.temp s)) : s.length ≤ Limits.text := by
  rw [hs.known] at h
  split at h
  · exact absurd (Option.some.inj h) (he s)
  · exact hc.temp_length j s h

theorem Stored.mem_released (hs : Stored t t' i e) (hc : t.Consistent) (he : e ≠ .free)
    (j : Nat) : j ∈ t'.released ↔ t'.known[j]? = some .free := by
  rw [hs.mem, hs.known, hc.mem_released]
  by_cases hj : j = i
  · simp [hj, he]
  · simp [hj]

theorem Stored.nul_notMem (hs : Stored t t' i e) (hc : t.Consistent) (he : 0 ∉ e.text)
    (j : Nat) (e' : Known) (h : t'.known[j]? = some e') : 0 ∉ e'.text := by
  rw [hs.known] at h
  split at h
  · exact Option.some.inj h ▸ he
  · exact hc.nul_notMem j e' h

/-- The zoned entries afterwards: the new one, if it is zoned, and those from before. -/
theorem Stored.zoned_iff (hs : Stored t t' i e) (j : Nat) :
    (∃ s, t'.known[j]? = some (.zoned s)) ↔
      (j = i ∧ e.isZoned = true) ∨ ∃ s, t.known[j]? = some (.zoned s) := by
  rw [hs.known]
  by_cases hj : j = i
  · subst hj
    have hold : ¬ ∃ s, t.known[j]? = some (.zoned s) := by
      rintro ⟨s, h⟩
      rcases hs.fresh with hf | hf <;> rw [hf] at h <;> simp at h
    cases e <;> simp [hold, Known.isZoned]
  · simp [hj]

/-- The engine strings afterwards: the new one, if it is one, and those from before. -/
theorem Stored.engine_iff (hs : Stored t t' i e) (j : Nat) (s : Bytes) :
    t'.known[j]? = some (.engine s) ↔
      (j = i ∧ e = .engine s) ∨ t.known[j]? = some (.engine s) := by
  rw [hs.known]
  by_cases hj : j = i
  · subst hj
    have hold : ¬ t.known[j]? = some (.engine s) := by
      intro h
      rcases hs.fresh with hf | hf <;> rw [hf] at h <;> simp at h
    simp [hold]
  · simp [hj]

end Stored

/-! ## Every operation keeps the table consistent -/

theorem consistent_ofConstants (constants : Bytes) : (ofConstants constants).Consistent := by
  have hknown : ∀ (i : Nat) (e : Known), (ofConstants constants).known[i]? = some e ↔
      i < Limits.tempStrings ∧ e = .temp [] := by
    intro i e
    simp only [ofConstants, Array.getElem?_replicate]
    split
    next hlt => simp [hlt, eq_comm]
    next hge => simp [hge]
  exact {
    temp_iff := fun i => by simp [hknown]
    temp_length := fun i s h => by simp_all
    nextTemp_lt := show 0 < Limits.tempStrings by decide
    zone_iff := fun i => by simp only [hknown]; simp [isZoned, ofConstants]
    zone_dvd := Nat.dvd_zero 32
    released_nodup := List.nodup_nil
    mem_released := fun i => by simp only [hknown]; simp [ofConstants]
    shared_iff := fun s i => by simp only [hknown]; simp [ofConstants]
    nul_notMem := fun i e h => by simp_all [Known.text] }

theorem length_fit_le (s : Bytes) : (fit s).length ≤ Limits.text := List.length_take_le _ _

theorem known_temp {t : StringTable} (hc : t.Consistent) (s : Bytes) (i : Nat) :
    (t.temp s).2.known[i]? = if i = t.nextTemp then some (.temp (fit s)) else t.known[i]? := by
  obtain ⟨old, hold⟩ := (hc.temp_iff t.nextTemp).mpr hc.nextTemp_lt
  have hlt : t.nextTemp < t.known.size := (Array.getElem?_eq_some_iff.mp hold).1
  simp only [temp, Array.getElem?_setIfInBounds, hlt, if_true, eq_comm]

theorem consistent_temp {t : StringTable} (hc : t.Consistent) (s : Bytes) :
    (t.temp s).2.Consistent := by
  -- The entry that is replaced is temporary, and so is the one that takes its place.
  obtain ⟨old, hold⟩ := (hc.temp_iff t.nextTemp).mpr hc.nextTemp_lt
  have hknown := known_temp hc s
  have hother : ∀ (j : Nat) (e : Known), (∀ s, e ≠ .temp s) →
      ((t.temp s).2.known[j]? = some e ↔ t.known[j]? = some e) := by
    intro j e he
    rw [hknown]
    by_cases hj : j = t.nextTemp
    · subst hj
      simp only [if_true, hold, Option.some.injEq]
      exact ⟨fun h => absurd h.symm (he _), fun h => absurd h.symm (he _)⟩
    · rw [if_neg hj]
  exact {
    temp_iff := by
      intro j
      rw [hknown]
      by_cases hj : j = t.nextTemp
      · simp [hj, hc.nextTemp_lt]
      · rw [if_neg hj]
        exact hc.temp_iff j
    temp_length := by
      intro j s' h
      rw [hknown] at h
      split at h
      · cases h
        exact length_fit_le s
      · exact hc.temp_length j s' h
    nextTemp_lt := Nat.mod_lt _ (by decide)
    zone_iff := by
      intro j
      simp only [hother j (.zoned _) (by simp)]
      exact hc.zone_iff j
    zone_dvd := hc.zone_dvd
    released_nodup := hc.released_nodup
    mem_released := fun j => (hc.mem_released j).trans (hother j .free (by simp)).symm
    shared_iff := fun s' j => (hc.shared_iff s' j).trans (hother j (.engine s') (by simp)).symm
    nul_notMem := by
      intro j e h
      rw [hknown] at h
      split at h
      · cases h
        exact fun hmem => Bytes.zero_notMem_untilNul s (List.mem_of_mem_take hmem)
      · exact hc.nul_notMem j e h }

/-- A text that the index finds has its entry already. -/
theorem engine_of_shared {t : StringTable} {s : Bytes} {i : Nat}
    (h : t.shared.lookup (Bytes.untilNul s) = some i) : t.engine s = (handle i, t) := by
  simp [engine, h]

/-- A text that the index does not find gets a new entry. -/
theorem engine_of_new {t : StringTable} {s : Bytes}
    (h : t.shared.lookup (Bytes.untilNul s) = none) :
    t.engine s = (handle (t.allocate (.engine (Bytes.untilNul s))).1,
      { (t.allocate (.engine (Bytes.untilNul s))).2 with
        shared := (Bytes.untilNul s, (t.allocate (.engine (Bytes.untilNul s))).1)
          :: (t.allocate (.engine (Bytes.untilNul s))).2.shared }) := by
  simp [engine, h]

theorem consistent_engine {t : StringTable} (hc : t.Consistent) (s : Bytes) :
    (t.engine s).2.Consistent := by
  cases hl : t.shared.lookup (Bytes.untilNul s) with
  | some i => rw [engine_of_shared hl]; exact hc
  | none =>
    rw [engine_of_new hl]
    have hs := allocate_stored hc (.engine (Bytes.untilNul s))
    obtain ⟨hzone, hshared, hnext⟩ := allocate_frame t (.engine (Bytes.untilNul s))
    exact {
      temp_iff := hs.temp_iff hc (by simp)
      temp_length := hs.temp_length hc (by simp)
      nextTemp_lt := hnext ▸ hc.nextTemp_lt
      zone_iff := by
        intro j
        have hz := hs.zoned_iff j
        simp only [Known.isZoned, Bool.false_eq_true, and_false, false_or] at hz
        rw [hz, ← hc.zone_iff]
        simp [isZoned, hzone]
      zone_dvd := hzone ▸ hc.zone_dvd
      released_nodup := hs.nodup
      mem_released := hs.mem_released hc (by simp)
      shared_iff := by
        intro s' j
        rw [hs.engine_iff, ← hc.shared_iff]
        simp only [hshared, List.lookup_cons, Known.engine.injEq]
        -- No entry had the new text before, or the index would have found it.
        by_cases he : s' = Bytes.untilNul s
        · subst he
          simp [hl, eq_comm]
        · simp [beq_false_of_ne he, Ne.symm he]
      nul_notMem := hs.nul_notMem hc (Bytes.zero_notMem_untilNul s) }

theorem consistent_zoned {t : StringTable} (hc : t.Consistent) (parts : List Bytes) :
    (t.zoned parts).2.Consistent := by
  have hs := allocate_stored hc (.zoned (parts.flatMap Bytes.untilNul))
  obtain ⟨hzone, hshared, hnext⟩ := allocate_frame t (.zoned (parts.flatMap Bytes.untilNul))
  unfold zoned
  exact {
    temp_iff := hs.temp_iff hc (by simp)
    temp_length := hs.temp_length hc (by simp)
    nextTemp_lt := hnext ▸ hc.nextTemp_lt
    zone_iff := by
      intro j
      simp only [isZoned, getD_mark, hzone]
      rw [hs.zoned_iff, ← hc.zone_iff]
      simp [isZoned, Known.isZoned]
    zone_dvd := dvd_size_mark (hzone ▸ hc.zone_dvd) _
    released_nodup := hs.nodup
    mem_released := hs.mem_released hc (by simp)
    shared_iff := by
      intro s' j
      rw [hs.engine_iff, ← hc.shared_iff]
      simp [hshared]
    nul_notMem := by
      refine hs.nul_notMem hc ?_
      simp only [Known.text, List.mem_flatMap, not_exists, not_and]
      exact fun part _ => Bytes.zero_notMem_untilNul part }

/-! ## Releasing strings -/

theorem lt_size_of_isZoned {t : StringTable} {i : Nat} (h : t.isZoned i = true) :
    i < t.zone.size := by
  by_contra hge
  rw [isZoned_eq, Array.getElem?_eq_none (by omega)] at h
  simp at h

theorem isZoned_release (t : StringTable) (i j : Nat) :
    (t.release i).isZoned j = (decide (j ≠ i) && t.isZoned j) := by
  simp only [isZoned_eq, release, Array.getElem?_setIfInBounds]
  by_cases hj : j = i
  · subst hj
    by_cases hlt : j < t.zone.size <;> simp [hlt]
  · simp [hj, Ne.symm hj]

theorem known_release {t : StringTable} {i : Nat} {s : Bytes} (hi : t.known[i]? = some (.zoned s))
    (j : Nat) : (t.release i).known[j]? = if j = i then some .free else t.known[j]? := by
  have hlt : i < t.known.size := (Array.getElem?_eq_some_iff.mp hi).1
  simp only [release, Array.getElem?_setIfInBounds, hlt, if_true, eq_comm]

theorem consistent_release {t : StringTable} (hc : t.Consistent) {i : Nat} {s : Bytes}
    (hi : t.known[i]? = some (.zoned s)) : (t.release i).Consistent := by
  have hknown := known_release hi
  -- The other kinds of entries are where they were: entry `i` was none of them and is none of them.
  have hother : ∀ (j : Nat) (e : Known), e ≠ .free → e.isZoned = false →
      ((t.release i).known[j]? = some e ↔ t.known[j]? = some e) := by
    intro j e hfree hzoned
    rw [hknown]
    by_cases hj : j = i
    · subst hj
      simp only [if_true, hi, Option.some.injEq]
      refine ⟨fun h => absurd h.symm hfree, ?_⟩
      rintro rfl
      simp [Known.isZoned] at hzoned
    · rw [if_neg hj]
  exact {
    temp_iff := by
      intro j
      simp only [hother j (.temp _) (by simp) rfl]
      exact hc.temp_iff j
    temp_length := fun j s' h => hc.temp_length j s' ((hother j _ (by simp) rfl).mp h)
    nextTemp_lt := hc.nextTemp_lt
    zone_iff := by
      intro j
      rw [isZoned_release, hknown]
      by_cases hj : j = i
      · simp [hj]
      · simpa [hj] using hc.zone_iff j
    zone_dvd := by simpa [release] using hc.zone_dvd
    released_nodup := by
      -- Entry `i` is zoned, and released entries are free.
      refine List.nodup_cons.mpr ⟨?_, hc.released_nodup⟩
      rw [hc.mem_released, hi]
      simp
    mem_released := by
      intro j
      rw [hknown]
      simp only [release, List.mem_cons, hc.mem_released]
      by_cases hj : j = i <;> simp [hj]
    shared_iff := fun s' j => (hc.shared_iff s' j).trans (hother j _ (by simp) rfl).symm
    nul_notMem := by
      intro j e h
      rw [hknown] at h
      split at h
      · cases h
        simp [Known.text]
      · exact hc.nul_notMem j e h }

/-- A handle is released if it names a zoned entry, and then that entry becomes free. -/
theorem unzone?_eq_some_iff {t : StringTable} (hc : t.Consistent) {h : Int} {t' : StringTable} :
    t.unzone? h = some t' ↔
      ∃ i s, h = handle i ∧ t.known[i]? = some (.zoned s) ∧ t' = t.release i := by
  constructor
  · intro hu
    unfold unzone? at hu
    split at hu
    next i hd =>
      obtain ⟨hh, s, hs⟩ := decode_eq_zoned hd
      rw [if_pos ((hc.zone_iff i).mpr ⟨s, hs⟩)] at hu
      exact ⟨i, s, hh, hs, (Option.some.inj hu).symm⟩
    next => simp at hu
  · rintro ⟨i, s, rfl, hs, rfl⟩
    unfold unzone?
    rw [decode_handle_zoned hs]
    exact if_pos ((hc.zone_iff i).mpr ⟨s, hs⟩)

theorem consistent_unzone? {t t' : StringTable} (hc : t.Consistent) {h : Int}
    (hu : t.unzone? h = some t') : t'.Consistent := by
  obtain ⟨i, s, -, hs, rfl⟩ := (unzone?_eq_some_iff hc).mp hu
  exact consistent_release hc hs

theorem zonedCount_release {t : StringTable} {i : Nat} (h : t.isZoned i = true) :
    (t.release i).zonedCount + 1 = t.zonedCount := by
  have hlt := lt_size_of_isZoned h
  have hbit : t.zone[i] = true := by
    rw [isZoned_eq, Array.getElem?_eq_getElem hlt] at h
    exact h
  have hpos : 0 < t.zone.count true := Array.count_pos_iff.mpr (hbit ▸ Array.getElem_mem hlt)
  show (t.zone.setIfInBounds i false).count true + 1 = t.zone.count true
  rw [Array.setIfInBounds_def, dif_pos hlt, Array.count_set hlt]
  simp only [hbit, beq_self_eq_true, if_true]
  simp
  omega

/-- Releasing the zoned entries below `n`, one after the other from the highest on. -/
theorem unzoneBelow_spec : ∀ (n : Nat) {t : StringTable}, t.Consistent →
    (t.unzoneBelow n).2.Consistent ∧
      (t.unzoneBelow n).1 + (t.unzoneBelow n).2.zonedCount = t.zonedCount ∧
      ∀ i, (t.unzoneBelow n).2.isZoned i = (decide (n ≤ i) && t.isZoned i)
  | 0, t, hc => ⟨hc, by simp [unzoneBelow], fun i => by simp [unzoneBelow]⟩
  | n + 1, t, hc => by
    rw [unzoneBelow]
    by_cases hz : t.isZoned n = true
    · -- The bit says that the entry is zoned, so releasing it does not fail.
      obtain ⟨s, hs⟩ := (hc.zone_iff n).mp hz
      have hu : t.unzone? (handle n) = some (t.release n) :=
        (unzone?_eq_some_iff hc).mpr ⟨n, s, rfl, hs, rfl⟩
      obtain ⟨hc', hcount, hleft⟩ := unzoneBelow_spec n (consistent_release hc hs)
      have hone := zonedCount_release hz
      simp only [hz, if_true, hu, Option.getD_some]
      refine ⟨hc', by omega, ?_⟩
      intro i
      rw [hleft, isZoned_release]
      by_cases hi : i = n
      · have hno : ¬ n + 1 ≤ n := by omega
        simp [hi, hno]
      · have hle : n ≤ i ↔ n + 1 ≤ i := by omega
        simp [hi, hle]
    · obtain ⟨hc', hcount, hleft⟩ := unzoneBelow_spec n hc
      rw [if_neg hz]
      refine ⟨hc', hcount, ?_⟩
      intro i
      rw [hleft]
      by_cases hi : i = n
      · subst hi
        simp [Bool.eq_false_iff.mpr hz]
      · have hle : n ≤ i ↔ n + 1 ≤ i := by omega
        simp [hle]

/-- Releasing all: the count is that of the zoned strings, and none is left. -/
theorem unzoneAll_spec {t : StringTable} (hc : t.Consistent) :
    t.unzoneAll.2.Consistent ∧ t.unzoneAll.1 = t.zonedCount ∧ t.unzoneAll.2.zonedCount = 0 := by
  obtain ⟨hc', hcount, hleft⟩ := unzoneBelow_spec t.zone.size hc
  have hnone : t.unzoneAll.2.zonedCount = 0 := by
    unfold zonedCount
    rw [Array.count_eq_zero]
    intro hmem
    obtain ⟨i, hi⟩ := Array.mem_iff_getElem?.mp hmem
    -- A bit that is left would lie behind the end of the bitmap.
    have hz : t.unzoneAll.2.isZoned i = true := by rw [isZoned_eq, hi]; rfl
    have hold := hleft i
    rw [show (t.unzoneBelow t.zone.size).2 = t.unzoneAll.2 from rfl, hz] at hold
    simp only [Bool.true_eq, Bool.and_eq_true, decide_eq_true_eq] at hold
    have hlt := lt_size_of_isZoned hold.2
    omega
  refine ⟨hc', ?_, hnone⟩
  have hsum : t.unzoneAll.1 + t.unzoneAll.2.zonedCount = t.zonedCount := hcount
  omega

/-! ## Every sequence of operations -/

theorem consistent_apply {t : StringTable} (hc : t.Consistent) :
    ∀ op : Operation, (t.apply op).Consistent
  | .temp s => consistent_temp hc s
  | .engine s => consistent_engine hc s
  | .zoned parts => consistent_zoned hc parts
  | .unzone h => by
    show ((t.unzone? h).getD t).Consistent
    cases hu : t.unzone? h with
    | none => exact hc
    | some t' => exact consistent_unzone? hc hu
  | .unzoneAll => (unzoneAll_spec hc).1

theorem consistent_foldl : ∀ (ops : List Operation) {t : StringTable}, t.Consistent →
    (ops.foldl apply t).Consistent
  | [], _, hc => hc
  | op :: rest, _, hc => consistent_foldl rest (consistent_apply hc op)

theorem consistent_after (constants : Bytes) (ops : List Operation) :
    (after constants ops).Consistent :=
  consistent_foldl ops (consistent_ofConstants constants)

/-- The bitmap counts the zoned entries. -/
theorem zonedCount_eq {t : StringTable} (hc : t.Consistent) :
    t.zonedCount = t.known.countP Known.isZoned := by
  have hplaces : ∀ i : Nat, (∃ b, t.zone.toList[i]? = some b ∧ (b == true) = true) ↔
      ∃ e, t.known.toList[i]? = some e ∧ e.isZoned = true := by
    intro i
    have hbit : (∃ b, t.zone.toList[i]? = some b ∧ (b == true) = true) ↔ t.isZoned i = true := by
      rw [isZoned_eq, Array.getElem?_toList]
      cases t.zone[i]? <;> simp
    have hkind : (∃ e, t.known.toList[i]? = some e ∧ e.isZoned = true) ↔
        ∃ s, t.known[i]? = some (.zoned s) := by
      rw [Array.getElem?_toList]
      constructor
      · rintro ⟨e, he, hz⟩
        cases e <;> simp [Known.isZoned] at hz
        exact ⟨_, he⟩
      · rintro ⟨s, hs⟩
        exact ⟨_, hs, rfl⟩
    rw [hbit, hkind]
    exact hc.zone_iff i
  rw [← Array.countP_toList, ← countP_eq_of_places _ _ hplaces, Array.countP_toList]
  rfl

end StringTable

end QuakeVm
