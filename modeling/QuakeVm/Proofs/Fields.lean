import QuakeVm.Machine.Execute
import QuakeVm.Proofs.Allocation

/-!
# Fields of entities

The words of all entities lie in one array, and a pointer to a field is an index into it. That is a
memory with a cell for each field of each entity: two fields have two pointers (`pointer_inj`), what
is written to one is read from it and from no other (`get_write_self`, `get_write_of_ne`), and a
pointer stays what it is while entities are made and removed (`pointer_of_allocate`,
`pointer_of_remove`).

A program keeps pointers in registers, which have 32 bits. Nothing is lost as long as there are no
more words than that (`pointerOf_ofNat`).
-/

namespace QuakeVm

namespace Entities

variable {e e' : Entities}

/-! ## Pointers -/

/-- The entities have a field: there is a block of the number, and blocks have that many words. -/
def Has (e : Entities) (number field : Int) : Prop :=
  0 ≤ number ∧ number < e.size ∧ 0 ≤ field ∧ field < e.fields

instance (e : Entities) (number field : Int) : Decidable (e.Has number field) :=
  inferInstanceAs (Decidable (_ ∧ _))

theorem has_iff {number field : Int} :
    e.Has number field ↔ ∃ p, e.pointer number field = .ok p := by
  simp only [pointer_eq_ok_iff, Has]
  constructor
  · rintro ⟨hnumber, hsize, hfield, hfields⟩
    exact ⟨_, hnumber, hfield, by omega, by omega, rfl⟩
  · rintro ⟨p, hnumber, hfield, hsize, hfields, -⟩
    omega

theorem pointer_of_not_has {number field : Int} (h : ¬ e.Has number field) :
    e.pointer number field = .error (.badEntity number) :=
  (pointer_cases e number field).resolve_left fun hp => h (has_iff.mpr hp)

/-- Different fields have different pointers. -/
theorem pointer_inj {number field number' field' : Int} {p : Nat}
    (hp : e.pointer number field = .ok p) (hp' : e.pointer number' field' = .ok p) :
    number = number' ∧ field = field' := by
  obtain ⟨hnumber, hfield, -, hlt, rfl⟩ := pointer_eq_ok hp
  obtain ⟨hnumber', hfield', -, hlt', heq⟩ := pointer_eq_ok hp'
  by_cases hsame : number.toNat = number'.toNat
  · rw [hsame] at heq
    omega
  · have hapart := not_in_block hlt hsame
    omega

/-- Making an entity leaves the pointers that there are. -/
theorem pointer_of_allocate {n p : Nat} {number field : Int} (h : e.allocate = .ok (n, e'))
    (hp : e.pointer number field = .ok p) : e'.pointer number field = .ok p := by
  obtain ⟨hnumber, hfield, hsize, hfields, rfl⟩ := pointer_eq_ok_iff.mp hp
  rw [pointer_eq_ok_iff]
  rcases allocate_eq_ok h with ⟨-, -, rfl⟩ | ⟨-, -, rfl⟩
  · rw [size_occupy]
    exact ⟨hnumber, hfield, hsize, hfields, rfl⟩
  · rw [size_occupy, size_grow]
    exact ⟨hnumber, hfield, by omega, hfields, rfl⟩

theorem pointer_of_remove {number number' : Int} (field : Int) (h : e.remove? number' = some e') :
    e'.pointer number field = e.pointer number field := by
  obtain ⟨-, -, rfl⟩ := remove?_eq_some h
  refine pointer_congr field rfl ?_
  show number.toNat < (e.free.setIfInBounds _ true).size ↔ _
  rw [Array.size_setIfInBounds]
  rfl

/-! ## Reading what was written -/

theorem read_write_self {p : Nat} {w : Int32} (h : e.write p w = .ok e') : e'.read p = .ok w := by
  obtain ⟨hlt, rfl⟩ := write_eq_ok h
  exact read_eq_ok_iff.mpr (Array.getElem?_setIfInBounds_self_of_lt hlt)

theorem read_write_of_ne {p q : Nat} {w : Int32} (h : e.write p w = .ok e') (hne : q ≠ p) :
    e'.read q = e.read q := by
  obtain ⟨-, rfl⟩ := write_eq_ok h
  exact read_congr rfl (Array.getElem?_setIfInBounds_ne hne.symm)

theorem get_write_self {number field : Int} {p : Nat} {w : Int32}
    (hp : e.pointer number field = .ok p) (h : e.write p w = .ok e') :
    e'.get number field = .ok w := by
  rw [get_of_pointer ((pointer_of_write h number field).trans hp), read_write_self h]

theorem get_write_of_ne {number field number' field' : Int} {p : Nat} {w : Int32}
    (hp : e.pointer number field = .ok p) (h : e.write p w = .ok e')
    (hne : ¬ (number' = number ∧ field' = field)) :
    e'.get number' field' = e.get number' field' := by
  refine get_congr (pointer_of_write h number' field') fun q hq => read_write_of_ne h ?_
  rintro rfl
  exact hne (pointer_inj hq hp)

theorem Sound.exists_write {number field : Int} {p : Nat} (he : e.Sound)
    (hp : e.pointer number field = .ok p) (w : Int32) : ∃ e', e.write p w = .ok e' := by
  unfold Entities.write
  rw [if_pos (he.lt_size_words hp)]
  exact ⟨_, rfl⟩

end Entities

open QuakeVm.Action Activation Entities

/-! ## Statements -/

theorem fieldPointer_apply (entity field : Nat) (a : Activation) :
    fieldPointer entity field a =
      lift (a.machine.entities.pointer (a.machine.registers.get entity).toInt
        (a.machine.registers.get field).toInt) a := by
  unfold fieldPointer
  rw [bind_apply, word_apply]
  dsimp only
  rw [bind_apply, word_apply]
  dsimp only
  rw [bind_apply, machine_apply]

theorem perform_address (exitDepth : Nat) (next : Int) (entity field target : Nat) (a : Activation) :
    perform exitDepth next (.address entity field target) a =
      if a.machine.registers.get entity == 0 && a.machine.worldLocked then
        .error (.ofCause .worldAssignment) a
      else
        match a.machine.entities.pointer (a.machine.registers.get entity).toInt
            (a.machine.registers.get field).toInt with
        | .error c => .error (.ofCause c) a
        | .ok p => .ok (some next) (a.mapMachine fun m =>
            { m with registers := m.registers.set target (Int32.ofNat p) }) := by
  unfold perform
  dsimp only
  rw [bind_apply, word_apply]
  dsimp only
  rw [bind_apply, machine_apply]
  dsimp only
  split
  · rfl
  · rw [bind_apply, fieldPointer_apply]
    cases a.machine.entities.pointer (a.machine.registers.get entity).toInt
      (a.machine.registers.get field).toInt <;> rfl

/-- The pointers of a machine that has not too many words are not cut off in a register. -/
theorem pointerOf_ofNat {q : Nat} (h : q < 0x100000000) : pointerOf (Int32.ofNat q) = q := by
  unfold pointerOf
  rw [Int32.toUInt32_ofNat', UInt32.toNat_ofNat_of_lt' h]

/-- Loading one word more. -/
theorem loadWords_succ (pointer target n : Nat) (a : Activation) :
    loadWords pointer target (n + 1) a =
      match a.machine.entities.read pointer with
      | .error c => .error (.ofCause c) a
      | .ok w => loadWords (pointer + 1) (target + 1) n
          (a.mapMachine fun m => { m with registers := m.registers.set target w }) := by
  rw [loadWords, bind_apply, machine_apply]
  dsimp only
  rw [bind_apply]
  cases a.machine.entities.read pointer <;> rfl

/-- Storing one word more. -/
theorem storeWords_succ (source pointer n : Nat) (a : Activation) :
    storeWords source pointer (n + 1) a =
      match a.machine.entities.write pointer (a.machine.registers.get source) with
      | .error c => .error (.ofCause c) a
      | .ok entities => storeWords (source + 1) (pointer + 1) n
          (a.mapMachine fun m => { m with entities }) := by
  rw [storeWords, bind_apply, word_apply]
  dsimp only
  rw [bind_apply, machine_apply]
  dsimp only
  rw [bind_apply]
  cases a.machine.entities.write pointer (a.machine.registers.get source) <;> rfl

/-- A load statement puts the word of a field into a register, or it ends in a fault and changes
nothing. -/
theorem perform_load (exitDepth : Nat) (next : Int) (entity field target : Nat) (a : Activation) :
    perform exitDepth next (.load entity field target) a =
      match a.machine.entities.get (a.machine.registers.get entity).toInt
          (a.machine.registers.get field).toInt with
      | .error c => .error (.ofCause c) a
      | .ok w => .ok (some next) (a.mapMachine fun m =>
          { m with registers := m.registers.set target w }) := by
  unfold perform
  dsimp only
  rw [bind_apply, fieldPointer_apply]
  cases hp : a.machine.entities.pointer (a.machine.registers.get entity).toInt
      (a.machine.registers.get field).toInt with
  | error c =>
    rw [get_of_error hp]
    rfl
  | ok p =>
    rw [get_of_pointer hp]
    show (loadWords p target 1 >>= fun _ => pure (some next)) a = _
    rw [bind_apply, loadWords_succ]
    cases a.machine.entities.read p <;> rfl

theorem perform_store (exitDepth : Nat) (next : Int) (source pointer : Nat) (a : Activation) :
    perform exitDepth next (.store source pointer) a =
      match a.machine.entities.write (pointerOf (a.machine.registers.get pointer))
          (a.machine.registers.get source) with
      | .error c => .error (.ofCause c) a
      | .ok entities => .ok (some next) (a.mapMachine fun m => { m with entities }) := by
  unfold perform
  dsimp only
  rw [bind_apply, word_apply]
  dsimp only
  rw [bind_apply, storeWords_succ]
  cases a.machine.entities.write (pointerOf (a.machine.registers.get pointer))
    (a.machine.registers.get source) <;> rfl

/-! ## Making and removing entities in between -/

/-- Any number of calls of the builtins that make and remove entities. Between them the registers,
and with them the arguments, change in any way. -/
inductive Respawned (a : Activation) : Activation → Prop where
  | refl : Respawned a a
  | spawn {b : Activation} (h : Respawned a b) : Respawned a (Builtins.spawn.final b)
  | remove {b : Activation} (h : Respawned a b) : Respawned a (Builtins.remove.final b)
  | registers {b : Activation} (h : Respawned a b) (r : Registers) :
    Respawned a (b.mapMachine fun m => { m with registers := r })

theorem entities_spawn (a : Activation) :
    (Builtins.spawn.final a).machine.entities = a.machine.entities ∨
      ∃ n, a.machine.entities.allocate = .ok (n, (Builtins.spawn.final a).machine.entities) := by
  unfold final
  cases h : a.machine.entities.allocate with
  | error c =>
    rw [spawn_of_error h]
    exact Or.inl rfl
  | ok r =>
    rw [spawn_of_ok (n := r.1) h]
    exact Or.inr ⟨r.1, rfl⟩

theorem entities_remove (a : Activation) :
    (Builtins.remove.final a).machine.entities = a.machine.entities ∨
      ∃ number, a.machine.entities.remove? number =
        some (Builtins.remove.final a).machine.entities := by
  unfold final
  cases h : a.machine.entities.remove? (a.machine.registers.get (parameter 0)).toInt with
  | none =>
    obtain ⟨text, hnone⟩ := remove_of_none h
    rw [hnone]
    exact Or.inl rfl
  | some e =>
    rw [remove_of_some h]
    exact Or.inr ⟨_, h⟩

/-- Pointers stay, and there is a word at each. -/
theorem Respawned.pointer {a b : Activation} (h : Respawned a b) (he : a.machine.entities.Sound) :
    b.machine.entities.Sound ∧ ∀ {number field : Int} {p : Nat},
      a.machine.entities.pointer number field = .ok p →
        b.machine.entities.pointer number field = .ok p := by
  induction h with
  | refl => exact ⟨he, id⟩
  | registers _ r ih => exact ih
  | @spawn b _ ih =>
    obtain ⟨hsound, hpointer⟩ := ih
    rcases entities_spawn b with hsame | ⟨n, hn⟩
    · rw [hsame]
      exact ⟨hsound, hpointer⟩
    · exact ⟨hsound.allocate hn, fun hp => pointer_of_allocate hn (hpointer hp)⟩
  | @remove b _ ih =>
    obtain ⟨hsound, hpointer⟩ := ih
    rcases entities_remove b with hsame | ⟨number', hn⟩
    · rw [hsame]
      exact ⟨hsound, hpointer⟩
    · exact ⟨hsound.remove hn, fun hp => (pointer_of_remove _ hn).trans (hpointer hp)⟩

/-! ## A memory of fields -/

/-- A word is the address of a field: as a pointer it leads to the field, and a statement that
stores through it changes the word of that field and of no other. -/
structure Addresses (a : Activation) (w : Int32) (number field : Int) : Prop where
  pointer_eq : a.machine.entities.pointer number field = .ok (pointerOf w)
  store (exitDepth : Nat) (next : Int) (source pointer : Nat)
    (h : a.machine.registers.get pointer = w) :
    ∃ e, perform exitDepth next (.store source pointer) a =
        .ok (some next) (a.mapMachine fun m => { m with entities := e }) ∧
      e.get number field = .ok (a.machine.registers.get source) ∧
      ∀ number' field', ¬ (number' = number ∧ field' = field) →
        e.get number' field' = a.machine.entities.get number' field'

theorem Addresses.of_pointer {a : Activation} {w : Int32} {number field : Int}
    (he : a.machine.entities.Sound)
    (hp : a.machine.entities.pointer number field = .ok (pointerOf w)) :
    Addresses a w number field := by
  refine ⟨hp, fun exitDepth next source pointer h => ?_⟩
  obtain ⟨e, hwrite⟩ := he.exists_write hp (a.machine.registers.get source)
  refine ⟨e, ?_, get_write_self hp hwrite, fun number' field' hne => get_write_of_ne hp hwrite hne⟩
  rw [perform_store, h, hwrite]

/-- An address statement of a field that there is, unless the field is the world's and the world is
locked. -/
theorem perform_address_of_pointer {a : Activation} {entity field p : Nat} (exitDepth : Nat)
    (next : Int) (target : Nat)
    (hworld : a.machine.worldLocked = false ∨ a.machine.registers.get entity ≠ 0)
    (hp : a.machine.entities.pointer (a.machine.registers.get entity).toInt
      (a.machine.registers.get field).toInt = .ok p) :
    perform exitDepth next (.address entity field target) a =
      .ok (some next) (a.mapMachine fun m =>
        { m with registers := m.registers.set target (Int32.ofNat p) }) := by
  rw [perform_address, if_neg (by simpa [imp_iff_not_or, or_comm] using hworld), hp]

/-- **The words of entities are a memory with a cell for each field.** An address statement of a
field puts a word into a register that stays the address of this field, whatever entities are made
and removed and whatever becomes of the registers: storing through the word sets this field and no
other. No word is the address of two fields. What a load statement reads is the field. An address or
a load of what is no field, be it below or beyond the fields that there are, is a fault that names
the entity and changes nothing. All this as long as the words of entities can be counted in 32 bits,
and the world not being locked where its fields are addressed. -/
theorem fields_faithful {a : Activation} (he : a.machine.entities.Reachable)
    (hwords : a.machine.entities.words.size ≤ 0x100000000) (exitDepth : Nat) (next : Int) :
    (∀ entity field target, (a.machine.worldLocked = false ∨ a.machine.registers.get entity ≠ 0) →
      (a.machine.entities.Has (a.machine.registers.get entity).toInt
          (a.machine.registers.get field).toInt →
        ∃ w b, perform exitDepth next (.address entity field target) a = .ok (some next) b ∧
          b = (a.mapMachine fun m => { m with registers := m.registers.set target w }) ∧
          ∀ c, Respawned b c → Addresses c w (a.machine.registers.get entity).toInt
            (a.machine.registers.get field).toInt) ∧
      (¬ a.machine.entities.Has (a.machine.registers.get entity).toInt
          (a.machine.registers.get field).toInt →
        perform exitDepth next (.address entity field target) a =
          .error (.ofCause (.badEntity (a.machine.registers.get entity).toInt)) a)) ∧
    (∀ c w number field number' field', Addresses c w number field → Addresses c w number' field' →
      number = number' ∧ field = field') ∧
    (∀ c entity field target number index, (c.machine.registers.get entity).toInt = number →
      (c.machine.registers.get field).toInt = index →
      (∀ w, c.machine.entities.get number index = .ok w →
        perform exitDepth next (.load entity field target) c =
          .ok (some next) (c.mapMachine fun m =>
            { m with registers := m.registers.set target w })) ∧
      (¬ c.machine.entities.Has number index →
        perform exitDepth next (.load entity field target) c =
          .error (.ofCause (.badEntity number)) c)) := by
  refine ⟨fun entity field target hworld => ⟨fun hhas => ?_, fun hnone => ?_⟩, ?_, ?_⟩
  · obtain ⟨p, hp⟩ := has_iff.mp hhas
    have hword : pointerOf (Int32.ofNat p) = p :=
      pointerOf_ofNat (Nat.lt_of_lt_of_le (he.sound.lt_size_words hp) hwords)
    refine ⟨Int32.ofNat p, _, perform_address_of_pointer exitDepth next target hworld hp, rfl,
      fun c hc => ?_⟩
    obtain ⟨hsound, hkept⟩ := hc.pointer he.sound
    exact .of_pointer hsound (hword.symm ▸ hkept hp)
  · rw [perform_address, if_neg (by simpa [imp_iff_not_or, or_comm] using hworld),
      pointer_of_not_has hnone]
  · intro c w number field number' field' h h'
    exact pointer_inj h.pointer_eq h'.pointer_eq
  · rintro c entity field target number index rfl rfl
    refine ⟨fun w hw => by rw [perform_load, hw], fun hnone => ?_⟩
    rw [perform_load, get_of_error (pointer_of_not_has hnone)]

/-- Entities with two fields each: the world and one more, which the first register names and
which is the argument of a call. -/
def addressing : Activation where
  machine := { StringTable.machineOf (.ofConstants []) with
    entities := { fields := 2, words := #[0, 0, 0, 0], free := #[false, false], max := 4 }
    registers := .ofGlobals #[1, 1, 0, 7, 1] }
  world := .new "game" .empty

/-- The word that an address statement makes is still the address after another entity has been made
and the one that it belongs to has been removed. There is no field with number seven. -/
theorem fields_faithful_addressing :
    addressing.machine.entities.words.size ≤ 0x100000000 ∧
    (∃ w b, perform 0 1 (.address 0 1 2) addressing = .ok (some 1) b ∧
      Addresses (Builtins.remove.final (Builtins.spawn.final b)) w 1 1) ∧
    perform 0 1 (.address 0 3 2) addressing = .error (.ofCause (.badEntity 1)) addressing ∧
    perform 0 1 (.load 0 3 2) addressing = .error (.ofCause (.badEntity 1)) addressing := by
  have he : addressing.machine.entities.Reachable :=
    .allocate (.new 2 4) (n := 1) (by decide +kernel)
  have hwords : addressing.machine.entities.words.size ≤ 0x100000000 := by decide +kernel
  obtain ⟨haddress, -, hload⟩ := fields_faithful he hwords 0 1
  obtain ⟨w, b, hstep, -, hkept⟩ := (haddress 0 1 2 (.inl rfl)).1 (by decide +kernel)
  exact ⟨hwords, ⟨w, b, hstep, hkept _ (.remove (.spawn .refl))⟩,
    (haddress 0 3 2 (.inl rfl)).2 (by decide +kernel),
    (hload addressing 0 3 2 1 7 rfl rfl).2 (by decide +kernel)⟩

end QuakeVm
