import QuakeVm.Proofs.Fields
import QuakeVm.Proofs.Runs

/-!
# The locked world

Locking the world forbids one thing, to make a pointer to one of its fields. The fields of the world
change by a store through a pointer that lies in its block, or by a state function of the world itself,
and by nothing else (`sameWorld_execute`). While the world is locked, no pointer that a program makes
lies in its block (`step_address`).

The lock is not a protection against stores. A program may store through a number that it did not get
as a pointer, and a state function asks for no pointer. There is a run of each kind below.
-/

namespace QuakeVm

open QuakeVm.Action Activation Entities

/-! ## Pointers into the world -/

/-- The statement stores into the block of the world: through a pointer that lies there, or because it
sets the state of the world. -/
def Machine.storesToWorld (m : Machine) (s : Int) : Prop :=
  match m.instruction? s with
  | some (.store _ pointer) | some (.storeVector _ pointer) =>
    pointerOf (m.registers.get pointer) < m.entities.fields
  | some (.state _ _) => m.registers.get selfRegister = 0
  | _ => False

/-- A statement that does not store into the block of the world writes behind it. -/
theorem fields_le_of_writes {m : Machine} {s : Int} {q : Nat} (hs : ¬ m.storesToWorld s)
    (hq : m.writes s q) : m.entities.fields ≤ q := by
  obtain ⟨i, hi, hq⟩ := hq
  unfold Machine.storesToWorld at hs
  rw [hi] at hs
  cases i with
  | store source pointer =>
    have hq : q = pointerOf (m.registers.get pointer) := hq
    have hs : ¬ pointerOf (m.registers.get pointer) < m.entities.fields := hs
    omega
  | storeVector source pointer =>
    have hle : pointerOf (m.registers.get pointer) ≤ q := hq.1
    have hs : ¬ pointerOf (m.registers.get pointer) < m.entities.fields := hs
    omega
  | state frame think =>
    obtain ⟨field, hpointer⟩ := hq
    obtain ⟨hnonneg, -, -, -, rfl⟩ := pointer_eq_ok hpointer
    have hself : (m.registers.get selfRegister).toInt ≠ 0 := fun h => hs (Int32.toInt_inj.mp h)
    exact Nat.le_add_right_of_le (m.entities.fields_le_mul (by omega))
  | _ => exact hq.elim

/-! ## What runs keep -/

/-- Entities change by the operations on them. -/
theorem Activation.Effect.entities_cases {writable : Nat → Prop} {a b : Activation}
    (h : Effect writable a b) :
    b.machine.entities = a.machine.entities ∨
    (∃ n, a.machine.entities.allocate = .ok (n, b.machine.entities)) ∨
    (∃ number, a.machine.entities.remove? number = some b.machine.entities) ∨
    ∃ p w, writable p ∧ a.machine.entities.write p w = .ok b.machine.entities := by
  cases h with
  | allocate h => exact Or.inr (Or.inl ⟨_, h⟩)
  | remove h => exact Or.inr (Or.inr (Or.inl ⟨_, h⟩))
  | write hp h => exact Or.inr (Or.inr (Or.inr ⟨_, _, hp, h⟩))
  | assignCvar name text =>
    obtain ⟨registers, strings, heq⟩ := sameButGlobals_assignCvar a name text
    rw [heq]
    exact Or.inl rfl
  | _ => exact Or.inl rfl

theorem kept_sound (fields : Nat) :
    Kept (fun _ => True) fun m => m.entities.Sound ∧ m.entities.fields = fields where
  effect h ha := by
    obtain ⟨hsound, hfields⟩ := ha
    rcases h.entities_cases with heq | ⟨n, h⟩ | ⟨number, h⟩ | ⟨p, w, -, h⟩
    · rw [heq]
      exact ⟨hsound, hfields⟩
    · exact ⟨hsound.allocate h, (sameWorld_allocate hsound h).fields_eq.trans hfields⟩
    · exact ⟨hsound.remove h, (sameWorld_remove h).fields_eq.trans hfields⟩
    · exact ⟨hsound.write h, (fields_of_write h).trans hfields⟩
  calls _ _ _ _ _ _ hm := hm

theorem kept_sameWorld (e : Entities) :
    Kept (e.fields ≤ ·) fun m => m.entities.Sound ∧ SameWorld e m.entities where
  effect h ha := by
    obtain ⟨hsound, hsame⟩ := ha
    rcases h.entities_cases with heq | ⟨n, h⟩ | ⟨number, h⟩ | ⟨p, w, hp, h⟩
    · rw [heq]
      exact ⟨hsound, hsame⟩
    · exact ⟨hsound.allocate h, hsame.trans (sameWorld_allocate hsound h)⟩
    · exact ⟨hsound.remove h, hsame.trans (sameWorld_remove h)⟩
    · rw [← hsame.fields_eq] at hp
      exact ⟨hsound.write h, hsame.trans (sameWorld_write hp h)⟩
  calls _ _ _ _ _ _ hm := hm

/-- The fields of the world stay unless a statement stores into its block. -/
theorem sameWorld_execute {a : Activation} {number : Int} (he : a.machine.entities.Sound)
    (hstores : ∀ p, Executes number a p → ¬ p.state.machine.storesToWorld p.next) :
    ((execute number).final a).machine.entities.Sound ∧
      SameWorld a.machine.entities ((execute number).final a).machine.entities := by
  refine (kept_sameWorld a.machine.entities).execute (fun p hp q hq => ?_) ⟨he, .refl _⟩
  obtain ⟨-, hfields⟩ := (kept_sound _).runPoint ⟨he, rfl⟩ hp.runPoint
  rw [← hfields]
  exact fields_le_of_writes (hstores p hp) hq

/-! ## Making pointers -/

/-- While the world is locked, an address statement of an entity other than the world makes a pointer
behind the block of the world, and one of the world ends in a fault. -/
theorem step_address {exitDepth : Nat} {s : Int} {a b : Activation} {entity field target : Nat}
    (hlocked : a.machine.worldLocked = true) (he : a.machine.entities.Sound)
    (hfetch : fetch s a = .ok (.address entity field target) b) :
    (b.machine.registers.get entity = 0 →
      step exitDepth s a = .error (.ofCause .worldAssignment) b) ∧
    ∀ r c, step exitDepth s a = .ok r c →
      ∃ w, c.machine.registers = b.machine.registers.set target w ∧
        (a.machine.entities.words.size ≤ 0x100000000 →
          a.machine.entities.fields ≤ pointerOf w) := by
  obtain ⟨-, -, -, -, -, hmachine⟩ := fetch_eq_ok hfetch
  have hlock : b.machine.worldLocked = true := by
    rw [hmachine]
    exact hlocked
  have hentities : b.machine.entities = a.machine.entities := by rw [hmachine]
  rw [step_of_fetch exitDepth hfetch, perform_address, hlock, hentities, Bool.and_true]
  refine ⟨fun hzero => by rw [if_pos (by simpa using hzero)], fun r c hstep => ?_⟩
  split at hstep
  · cases hstep
  next hne =>
    cases hpointer : a.machine.entities.pointer (b.machine.registers.get entity).toInt
        (b.machine.registers.get field).toInt with
    | error e => rw [hpointer] at hstep; cases hstep
    | ok q =>
      rw [hpointer] at hstep
      cases hstep
      obtain ⟨hnonneg, -, hnumber, hfield, hq⟩ := pointer_eq_ok hpointer
      have hpos : 1 ≤ (b.machine.registers.get entity).toInt.toNat := by
        have hentity : (b.machine.registers.get entity).toInt ≠ 0 := fun h =>
          hne (by simpa using Int32.toInt_inj.mp h)
        omega
      refine ⟨Int32.ofNat q, rfl, fun hsize => ?_⟩
      have hlt : q < a.machine.entities.words.size := by
        rw [he.size_words, hq]
        calc (b.machine.registers.get entity).toInt.toNat * a.machine.entities.fields
              + (b.machine.registers.get field).toInt.toNat
            < ((b.machine.registers.get entity).toInt.toNat + 1) * a.machine.entities.fields := by
              rw [Nat.succ_mul]
              omega
          _ ≤ a.machine.entities.free.size * a.machine.entities.fields :=
              Nat.mul_le_mul_right _ hnumber
      rw [pointerOf_ofNat (by omega), hq]
      exact Nat.le_add_right_of_le (a.machine.entities.fields_le_mul hpos)

/-! ## The lock -/

/-- **A locked world changes by forged pointers and by its own state only.** Whatever function is
executed, however it ends: a field of the world that is not what it was before has been stored to by a
statement that the run executed, through a pointer into the block of the world or as the state of the
world. While it is locked, no statement makes such a pointer: an address of a field of the world is a
fault, and another address lies behind the block of the world, as long as the words of entities can be
counted in 32 bits. -/
theorem locked_world_kept {a : Activation} (hlocked : a.machine.worldLocked = true)
    (he : a.machine.entities.Reachable) (number : Int) :
    (∀ field, ((execute number).final a).machine.entities.get 0 field ≠
        a.machine.entities.get 0 field →
      ∃ p, Executes number a p ∧ p.state.machine.storesToWorld p.next) ∧
    ∀ p entity field target b, RunPoint number a p →
      fetch p.next p.state = .ok (.address entity field target) b →
      (b.machine.registers.get entity = 0 →
        step a.machine.depth p.next p.state = .error (.ofCause .worldAssignment) b) ∧
      ∀ r c, step a.machine.depth p.next p.state = .ok r c →
        ∃ w, c.machine.registers = b.machine.registers.set target w ∧
          (p.state.machine.entities.words.size ≤ 0x100000000 →
            a.machine.entities.fields ≤ pointerOf w) := by
  constructor
  · intro field hchanged
    by_contra hnone
    obtain ⟨hsound, hsame⟩ := sameWorld_execute he.sound fun p hp hs => hnone ⟨p, hp, hs⟩
    exact hchanged (hsame.get_eq he.sound hsound field)
  · intro p entity field target b hp hfetch
    obtain ⟨-, hstill⟩ := (kept_settings _ _).runPoint ⟨rfl, hlocked⟩ hp
    obtain ⟨hsound, hfields⟩ := (kept_sound _).runPoint ⟨he.sound, rfl⟩ hp
    rw [← hfields]
    exact step_address hstill hsound hfetch

/-- Three functions that are after the fields of the world, which are those that a state is set in.
Function one stores through a register that holds zero, which is the pointer to the first field of the
world, and function two sets the state of `self`, which is the world. Function three asks for the
address of a field of the world. -/
def trespassing : Program where
  header := { entityFields := 3 }
  strings := 0 :: Bytes.ofText "nextthink" ++ 0 :: Bytes.ofText "frame" ++
    0 :: Bytes.ofText "think" ++ [0]
  fielddefs := #[{ type := ValueType.float.code, offset := 0, name := 1 },
    { type := ValueType.float.code, offset := 1, name := 11 },
    { type := ValueType.function.code, offset := 2, name := 17 }]
  statements := #[{}, { op := Opcode.storepF.number, a := 32, b := 33 }, {},
    { op := Opcode.state.number, a := 32 }, {},
    { op := Opcode.address.number, a := 28, b := 33, c := 34 }, {}]
  functions := #[{}, { firstStatement := 1 }, { firstStatement := 3 }, { firstStatement := 5 }]
  globals := Array.replicate 32 0 ++ #[9, 0, 0]

/-- The program loaded, with ten statements to run and the world locked. -/
def trespassingLocked : Activation :=
  (load .client trespassing (.new "game" .empty)).mapMachine fun m =>
    { m with worldLocked := true, limit := 10 }

/-- **The lock does not keep the world from being written.** One run stores through a number that is no
pointer it has made, another one sets the state of the world. -/
theorem locked_world_written :
    trespassingLocked.machine.worldLocked = true ∧
    trespassingLocked.machine.entities.get 0 0 = .ok 0 ∧
    ((execute 1).final trespassingLocked).machine.entities.get 0 0 = .ok 9 ∧
    trespassingLocked.machine.entities.get 0 1 = .ok 0 ∧
    ((execute 2).final trespassingLocked).machine.entities.get 0 1 = .ok 9 := by
  decide +kernel

theorem locked_world_kept_trespassing :
    (∃ p, Executes 1 trespassingLocked p ∧ p.state.machine.storesToWorld p.next) ∧
    ∃ p b, RunPoint 3 trespassingLocked p ∧
      step 0 p.next p.state = .error (.ofCause .worldAssignment) b := by
  have hentities : trespassingLocked.machine.entities = .new 3 Limits.entities := by decide +kernel
  have he : trespassingLocked.machine.entities.Reachable := hentities ▸ .new 3 Limits.entities
  constructor
  · refine (locked_world_kept rfl he 1).1 0 ?_
    decide +kernel
  · have hp : RunPoint 3 trespassingLocked ⟨5, _⟩ := .start (p := ⟨5, _⟩) rfl
    exact ⟨_, _, hp, ((locked_world_kept rfl he 3).2 _ 28 33 34 _ hp rfl).1 rfl⟩

end QuakeVm
