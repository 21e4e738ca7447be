import QuakeVm.World

/-!
# Entries and their owners

The tables that programs share are only ever changed in the slots of one role at a time: a slot that is
free or belongs to the role gets an entry of that role, or it is freed. `KeepsOthers` says what this
leaves alone, the entries of the other role. It says it in both directions, so that no entry of the
other role comes into being either.
-/

namespace QuakeVm

namespace OwnedTable

variable {α : Type} {t t' t'' : OwnedTable α} {owner : Role} {i : Int} {v : α}

/-! ## Slots -/

theorem slot?_natCast (t : OwnedTable α) (n : Nat) : t.slot? n = t.slots.getD n none := by
  unfold slot?
  rw [if_neg (by omega), Int.toNat_natCast]

/-- No slot has a negative number. -/
theorem slot?_of_neg (t : OwnedTable α) (h : i < 0) : t.slot? i = none := by
  unfold slot?
  rw [if_pos h]

theorem slot?_of_size_le (t : OwnedTable α) {n : Nat} (h : t.size ≤ n) : t.slot? n = none := by
  rw [slot?_natCast, Array.getD_eq_getD_getElem?, Array.getElem?_eq_none h, Option.getD_none]

/-- A slot with an entry has a number below the size of the table. -/
theorem exists_index {e : Owned α} (h : t.slot? i = some e) : ∃ n : Nat, i = n ∧ n < t.size := by
  by_cases hneg : i < 0
  · rw [slot?_of_neg t hneg] at h
    cases h
  obtain ⟨n, rfl⟩ := Int.eq_ofNat_of_zero_le (Int.not_lt.mp hneg)
  rcases Nat.lt_or_ge n t.size with hn | hn
  · exact ⟨n, rfl, hn⟩
  · rw [slot?_of_size_le t hn] at h
    cases h

/-- Two tables with the same slots from zero on are the same to every handle. -/
theorem slot?_congr {i : Int} {f : Option (Owned α) → Option (Owned α)} (hf : f none = none)
    (h : ∀ n : Nat, t'.slots.getD n none = f (t.slots.getD n none)) :
    t'.slot? i = f (t.slot? i) := by
  by_cases hneg : i < 0
  · rw [slot?_of_neg t' hneg, slot?_of_neg t hneg, hf]
  obtain ⟨n, rfl⟩ := Int.eq_ofNat_of_zero_le (Int.not_lt.mp hneg)
  rw [slot?_natCast, slot?_natCast, h]

theorem slot?_put_self (t : OwnedTable α) {n : Nat} (hn : n < t.size) (owner : Role) (v : α) :
    (t.put n owner v).slot? n = some ⟨owner, v⟩ := by
  rw [slot?_natCast, put, Array.getD_eq_getD_getElem?, Array.getElem?_setIfInBounds_self_of_lt hn,
    Option.getD_some]

/-- The other slots stay as they are. -/
theorem slot?_put_ne (t : OwnedTable α) {n : Nat} (h : i ≠ n) (owner : Role) (v : α) :
    (t.put n owner v).slot? i = t.slot? i := by
  by_cases hneg : i < 0
  · rw [slot?_of_neg _ hneg, slot?_of_neg _ hneg]
  obtain ⟨k, rfl⟩ := Int.eq_ofNat_of_zero_le (Int.not_lt.mp hneg)
  rw [slot?_natCast, slot?_natCast, put, Array.getD_eq_getD_getElem?,
    Array.getD_eq_getD_getElem?, Array.getElem?_setIfInBounds_ne (by omega)]

theorem slot?_erase_self (t : OwnedTable α) (n : Nat) : (t.erase n).slot? n = none := by
  rw [slot?_natCast, erase, Array.getD_eq_getD_getElem?]
  by_cases hn : n < t.slots.size
  · rw [Array.getElem?_setIfInBounds_self_of_lt hn, Option.getD_some]
  · rw [Array.getElem?_eq_none (by rw [Array.size_setIfInBounds]; omega), Option.getD_none]

theorem slot?_erase_ne (t : OwnedTable α) {n : Nat} (h : i ≠ n) :
    (t.erase n).slot? i = t.slot? i := by
  by_cases hneg : i < 0
  · rw [slot?_of_neg _ hneg, slot?_of_neg _ hneg]
  obtain ⟨k, rfl⟩ := Int.eq_ofNat_of_zero_le (Int.not_lt.mp hneg)
  rw [slot?_natCast, slot?_natCast, erase, Array.getD_eq_getD_getElem?,
    Array.getD_eq_getD_getElem?, Array.getElem?_setIfInBounds_ne (by omega)]

/-- Slots that are added are empty. -/
theorem slot?_grow (t : OwnedTable α) (n : Nat) (i : Int) : (t.grow n).slot? i = t.slot? i := by
  refine slot?_congr (f := id) rfl fun k => ?_
  rw [grow, Array.getD_eq_getD_getElem?, Array.getD_eq_getD_getElem?, id]
  rcases Nat.lt_or_ge k t.slots.size with hk | hk
  · rw [Array.getElem?_append_left hk]
  · rw [Array.getElem?_append_right hk, Array.getElem?_eq_none hk, Array.getElem?_replicate]
    split <;> rfl

theorem size_grow (t : OwnedTable α) (n : Nat) : (t.grow n).size = t.size + n := by
  rw [size, grow, Array.size_append, Array.size_replicate, size]

theorem slot?_empty (n : Nat) (i : Int) : (empty n : OwnedTable α).slot? i = none := by
  by_cases hneg : i < 0
  · exact slot?_of_neg _ hneg
  obtain ⟨k, rfl⟩ := Int.eq_ofNat_of_zero_le (Int.not_lt.mp hneg)
  rw [slot?_natCast, empty, Array.getD_eq_getD_getElem?, Array.getElem?_replicate]
  split <;> rfl

/-- The first free slot is in the table and holds nothing. -/
theorem free?_eq_some {n : Nat} (h : t.free? = some n) : n < t.size ∧ t.slot? n = none := by
  unfold free? at h
  obtain ⟨hn, hfree, -⟩ := Array.findIdx?_eq_some_iff_getElem.mp h
  refine ⟨hn, ?_⟩
  rw [slot?_natCast, Array.getD_eq_getD_getElem?, Array.getElem?_eq_getElem hn, Option.getD_some]
  exact Option.isNone_iff_eq_none.mp hfree

/-- What a role gets is its own. -/
theorem get_eq_ok : t.get owner i = .ok v ↔ t.slot? i = some ⟨owner, v⟩ := by
  unfold get
  cases hslot : t.slot? i with
  | none => simp
  | some e =>
    obtain ⟨o, x⟩ := e
    by_cases ho : o = owner
    · subst ho
      simp
    · simp [ho]

/-! ## The entries of the other role -/

/-- Two tables have the same entries of roles other than one. -/
def KeepsOthers (owner : Role) (t t' : OwnedTable α) : Prop :=
  ∀ (i : Int) (e : Owned α), e.owner ≠ owner → (t'.slot? i = some e ↔ t.slot? i = some e)

theorem KeepsOthers.refl (owner : Role) (t : OwnedTable α) : KeepsOthers owner t t :=
  fun _ _ _ => Iff.rfl

theorem KeepsOthers.trans (h : KeepsOthers owner t t') (h' : KeepsOthers owner t' t'') :
    KeepsOthers owner t t'' :=
  fun i e he => (h' i e he).trans (h i e he)

/-- Two tables that differ in slots of one role only. -/
theorem KeepsOthers.of_slots
    (h : ∀ i, t'.slot? i = t.slot? i ∨
      (∀ e, t.slot? i = some e → e.owner = owner) ∧ ∀ e, t'.slot? i = some e → e.owner = owner) :
    KeepsOthers owner t t' := by
  intro i e he
  rcases h i with heq | ⟨hbefore, hafter⟩
  · rw [heq]
  · exact ⟨fun hi => absurd (hafter e hi) he, fun hi => absurd (hbefore e hi) he⟩

/-- A slot that no other role holds may get an entry. -/
theorem keepsOthers_put {n : Nat} (hn : n < t.size)
    (hmine : ∀ e, t.slot? n = some e → e.owner = owner) (v : α) :
    KeepsOthers owner t (t.put n owner v) := by
  refine .of_slots fun i => ?_
  by_cases hi : i = n
  · subst hi
    refine Or.inr ⟨hmine, fun e he => ?_⟩
    rw [slot?_put_self t hn] at he
    cases he
    rfl
  · exact Or.inl (slot?_put_ne t hi owner v)

/-- A role may empty a slot of its own. -/
theorem keepsOthers_erase {n : Nat} (hmine : ∀ e, t.slot? n = some e → e.owner = owner) :
    KeepsOthers owner t (t.erase n) := by
  refine .of_slots fun i => ?_
  by_cases hi : i = n
  · subst hi
    refine Or.inr ⟨hmine, fun e he => ?_⟩
    rw [slot?_erase_self] at he
    cases he
  · exact Or.inl (slot?_erase_ne t hi)

theorem keepsOthers_grow (owner : Role) (t : OwnedTable α) (n : Nat) :
    KeepsOthers owner t (t.grow n) :=
  .of_slots fun i => Or.inl (slot?_grow t n i)

/-- An entry that a role got may be replaced. -/
theorem keepsOthers_put_of_get (h : t.get owner i = .ok v) (v' : α) :
    KeepsOthers owner t (t.put i.toNat owner v') := by
  rw [get_eq_ok] at h
  obtain ⟨n, rfl, hn⟩ := exists_index h
  rw [Int.toNat_natCast]
  refine keepsOthers_put hn (fun e he => ?_) v'
  rw [h] at he
  cases he
  rfl

/-- An entry that a role got may be freed. -/
theorem keepsOthers_erase_of_get (h : t.get owner i = .ok v) :
    KeepsOthers owner t (t.erase i.toNat) := by
  rw [get_eq_ok] at h
  obtain ⟨n, rfl, -⟩ := exists_index h
  rw [Int.toNat_natCast]
  refine keepsOthers_erase fun e he => ?_
  rw [h] at he
  cases he
  rfl

/-- A free slot may get an entry. -/
theorem keepsOthers_put_of_free {n : Nat} (h : t.free? = some n) (v : α) :
    KeepsOthers owner t (t.put n owner v) := by
  obtain ⟨hn, hfree⟩ := free?_eq_some h
  refine keepsOthers_put hn (fun e he => ?_) v
  rw [hfree] at he
  cases he

/-! ## Releasing the entries of a role -/

/-- Releasing empties the slots of one owner. -/
theorem slot?_release (t : OwnedTable α) (owner : Role) (i : Int) :
    (t.release owner).slot? i = (t.slot? i).filter (·.owner != owner) := by
  refine slot?_congr (f := Option.filter (·.owner != owner)) rfl fun n => ?_
  rw [release, Array.getD_eq_getD_getElem?, Array.getD_eq_getD_getElem?, Array.getElem?_map]
  cases t.slots[n]? with
  | none => rfl
  | some s =>
    cases s with
    | none => rfl
    | some e =>
      simp only [Option.map_some, Option.getD_some, belongsTo, Option.filter_some]
      by_cases he : e.owner = owner
      · simp [he]
      · simp [he]

/-- No entry belongs to a role. -/
def HasNone (t : OwnedTable α) (owner : Role) : Prop :=
  ∀ (i : Int) (e : Owned α), t.slot? i = some e → e.owner ≠ owner

/-- After a release the owner has nothing. -/
theorem hasNone_release (t : OwnedTable α) (owner : Role) : (t.release owner).HasNone owner := by
  intro i e he
  rw [slot?_release, Option.filter_eq_some_iff] at he
  simpa using he.2

/-- A release does not touch the slots of others. -/
theorem keepsOthers_release (t : OwnedTable α) (owner : Role) :
    KeepsOthers owner t (t.release owner) := by
  intro i e he
  rw [slot?_release, Option.filter_eq_some_iff]
  simp [he]

theorem hasNone_empty (n : Nat) (owner : Role) : (empty n : OwnedTable α).HasNone owner := by
  intro i e he
  rw [slot?_empty] at he
  cases he

/-- A role without entries has none after another role has changed its own. -/
theorem HasNone.of_keepsOthers {other : Role} (h : t.HasNone other) (hne : other ≠ owner)
    (hkeeps : KeepsOthers owner t t') : t'.HasNone other := by
  intro i e he hother
  exact h i e ((hkeeps i e (hother ▸ hne)).mp he) hother

end OwnedTable

/-! ## The tables of a world -/

namespace World

variable {w w' w'' : World} {role : Role}

/-- Two worlds have the same files, searches and buffers of roles other than one. -/
structure KeepsOthers (role : Role) (w w' : World) : Prop where
  files : w.files.KeepsOthers role w'.files
  searches : w.searches.KeepsOthers role w'.searches
  buffers : w.buffers.KeepsOthers role w'.buffers

theorem KeepsOthers.trans (h : w.KeepsOthers role w') (h' : w'.KeepsOthers role w'') :
    w.KeepsOthers role w'' :=
  ⟨h.files.trans h'.files, h.searches.trans h'.searches, h.buffers.trans h'.buffers⟩

/-- Two worlds have the same tables. -/
structure SameTables (w w' : World) : Prop where
  files_eq : w'.files = w.files
  searches_eq : w'.searches = w.searches
  buffers_eq : w'.buffers = w.buffers

theorem SameTables.refl (w : World) : w.SameTables w := ⟨rfl, rfl, rfl⟩

theorem SameTables.keepsOthers (h : w.SameTables w') (role : Role) : w.KeepsOthers role w' := by
  refine ⟨?_, ?_, ?_⟩
  · rw [h.files_eq]
    exact .refl _ _
  · rw [h.searches_eq]
    exact .refl _ _
  · rw [h.buffers_eq]
    exact .refl _ _

theorem KeepsOthers.refl (role : Role) (w : World) : w.KeepsOthers role w :=
  (SameTables.refl w).keepsOthers role

theorem sameTables_record (w : World) (level : Level) (text : String) :
    w.SameTables (w.record level text) := ⟨rfl, rfl, rfl⟩

/-- Setting a variable leaves the tables alone. -/
theorem sameTables_setCvar (w : World) (name text : String) :
    w.SameTables (w.setCvar name text).2 := by
  unfold setCvar
  split <;> exact ⟨rfl, rfl, rfl⟩

/-- What a role may do to a world without setting a variable: it changes entries of its own in the
tables, the disk, the console and the log. -/
structure Uses (role : Role) (w w' : World) : Prop where
  cvars_eq : w'.cvars = w.cvars
  changed_eq : w'.changed = w.changed
  active_eq : w'.active = w.active
  sandbox_eq : w'.sandbox = w.sandbox
  others : w.KeepsOthers role w'

theorem Uses.refl (role : Role) (w : World) : w.Uses role w := ⟨rfl, rfl, rfl, rfl, .refl role w⟩

theorem Uses.trans (h : w.Uses role w') (h' : w'.Uses role w'') : w.Uses role w'' where
  cvars_eq := h'.cvars_eq.trans h.cvars_eq
  changed_eq := h'.changed_eq.trans h.changed_eq
  active_eq := h'.active_eq.trans h.active_eq
  sandbox_eq := h'.sandbox_eq.trans h.sandbox_eq
  others := h.others.trans h'.others

/-- The disk, the console, the log and the seed are everybody's. -/
theorem uses_common (role : Role) (w : World) (disk : Disk) (output commandText : Bytes)
    (queried : List String) (log : Log) (seed : StdGen) :
    w.Uses role { w with disk, output, commandText, queried, log, seed } :=
  ⟨rfl, rfl, rfl, rfl, .refl _ _, .refl _ _, .refl _ _⟩

theorem uses_files {files : FileTable} (h : w.files.KeepsOthers role files) (disk : Disk) :
    w.Uses role { w with files, disk } :=
  ⟨rfl, rfl, rfl, rfl, h, .refl _ _, .refl _ _⟩

theorem uses_searches {searches : SearchTable} (h : w.searches.KeepsOthers role searches) :
    w.Uses role { w with searches } :=
  ⟨rfl, rfl, rfl, rfl, .refl _ _, h, .refl _ _⟩

theorem uses_buffers {buffers : BufferTable} (h : w.buffers.KeepsOthers role buffers) :
    w.Uses role { w with buffers } :=
  ⟨rfl, rfl, rfl, rfl, .refl _ _, .refl _ _, h⟩

/-- A role owns nothing in the tables of a world. -/
structure HasNone (w : World) (role : Role) : Prop where
  files : w.files.HasNone role
  searches : w.searches.HasNone role
  buffers : w.buffers.HasNone role

theorem HasNone.of_keepsOthers {other : Role} (h : w.HasNone other) (hne : other ≠ role)
    (hkeeps : w.KeepsOthers role w') : w'.HasNone other :=
  ⟨h.files.of_keepsOthers hne hkeeps.files, h.searches.of_keepsOthers hne hkeeps.searches,
    h.buffers.of_keepsOthers hne hkeeps.buffers⟩

theorem HasNone.of_sameTables (h : w.HasNone role) (hsame : w.SameTables w') : w'.HasNone role := by
  obtain ⟨hfiles, hsearches, hbuffers⟩ := hsame
  exact ⟨hfiles ▸ h.files, hsearches ▸ h.searches, hbuffers ▸ h.buffers⟩

end World

end QuakeVm
