import QuakeVm.Builtin.Console
import QuakeVm.Proofs.Ownership
import QuakeVm.Proofs.StringTable
import Mathlib.Logic.Relation

/-!
# What actions change

`Effect` lists the changes that a builtin can make to a machine and to the world: each constructor is
one elementary change, with what is known about it. An action is confined if whatever it does is a
sequence of such changes, whether it ends with a result or in a fault. Properties of runs are proved
from `Effect` alone, so none of them has to look into a builtin again.

## How an action is shown to be confined

`Confined` is a class, and the rules for sequencing, branching and reading are instances. An action
without a `match` is confined by `infer_instance`; where there is one, the proof takes the cases apart
and leaves each of them to the instances.

The string table of a machine changes by the operations of `StringTable.Operation` only. What holds
after any of them, and what releasing a string returns, is the last part of this file.
-/

namespace QuakeVm

namespace Activation

/-- The activation after a program has set a variable. -/
def assignCvar (a : Activation) (name text : String) : Activation :=
  let (changed, w) := a.world.setCvar name text
  if changed then
    { machine := a.machine.update w.cvars name
      world := { w with
        changed := if w.changed.contains name then w.changed else w.changed ++ [name] } }
  else { a with world := w }

/-- An elementary change. Words of entities are written through some pointers only. -/
inductive Effect (writable : Nat → Prop) : Activation → Activation → Prop where
  /-- Registers change their words, not their number. -/
  | registers (a : Activation) (r : Registers) (h : r.size = a.machine.registers.size) :
    Effect writable a (a.mapMachine fun m => { m with registers := r })
  /-- The string table changes by its operations only. -/
  | strings (a : Activation) (op : StringTable.Operation) :
    Effect writable a (a.mapMachine fun m => { m with strings := m.strings.apply op })
  /-- An entity is made. -/
  | allocate (a : Activation) {n : Nat} {e : Entities} (h : a.machine.entities.allocate = .ok (n, e)) :
    Effect writable a (a.mapMachine fun m => { m with entities := e })
  /-- An entity is removed. -/
  | remove (a : Activation) {n : Int} {e : Entities} (h : a.machine.entities.remove? n = some e) :
    Effect writable a (a.mapMachine fun m => { m with entities := e })
  /-- A word of an entity is written. -/
  | write (a : Activation) {p : Nat} {w : Int32} {e : Entities} (hp : writable p)
    (h : a.machine.entities.write p w = .ok e) :
    Effect writable a (a.mapMachine fun m => { m with entities := e })
  /-- A slot is bound to what it stands for. -/
  | bind (a : Activation) {slot : Nat} {p : Primitive} (hallowed : a.machine.allows slot = true)
    (hp : Primitive.resolve? slot a.machine.role = some p) :
    Effect writable a (a.mapMachine fun m => { m with slots := m.slots.setIfInBounds slot (some p) })
  | tokens (a : Activation) (ts : List Token) :
    Effect writable a (a.mapMachine fun m => { m with tokens := ts })
  | tracing (a : Activation) (on : Bool) :
    Effect writable a (a.mapMachine fun m => { m with tracing := on })
  | statement (a : Activation) (s : Int) :
    Effect writable a (a.mapMachine fun m => { m with statement := s })
  | argumentCount (a : Activation) (n : Nat) :
    Effect writable a (a.mapMachine fun m => { m with argumentCount := n })
  /-- A variable is set. -/
  | assignCvar (a : Activation) (name text : String) :
    Effect writable a (a.assignCvar name text)
  /-- The world changes elsewhere than in its variables, and nothing that another role owns does. -/
  | world (a : Activation) (w : World) (h : a.world.Uses a.machine.role w) :
    Effect writable a { a with world := w }

/-- A sequence of elementary changes. -/
def Effects (writable : Nat → Prop) : Activation → Activation → Prop :=
  Relation.ReflTransGen (Effect writable)

section Effects

variable {writable : Nat → Prop} {a b c : Activation}

theorem Effects.refl (a : Activation) : Effects writable a a := Relation.ReflTransGen.refl

theorem Effects.trans (hab : Effects writable a b) (hbc : Effects writable b c) :
    Effects writable a c :=
  Relation.ReflTransGen.trans hab hbc

theorem Effect.effects (h : Effect writable a b) : Effects writable a b :=
  Relation.ReflTransGen.single h

/-- Where more may be written, the effects are still effects. -/
theorem Effects.mono {writable' : Nat → Prop} (h : Effects writable a b)
    (hle : ∀ p, writable p → writable' p) : Effects writable' a b := by
  refine Relation.ReflTransGen.mono ?_ _ _ h
  intro a b hab
  cases hab with
  | registers r h => exact .registers a r h
  | strings op => exact .strings a op
  | allocate h => exact .allocate a h
  | remove h => exact .remove a h
  | write hp h => exact .write a (hle _ hp) h
  | bind hallowed hp => exact .bind a hallowed hp
  | tokens ts => exact .tokens a ts
  | tracing on => exact .tracing a on
  | statement s => exact .statement a s
  | argumentCount n => exact .argumentCount a n
  | assignCvar name text => exact .assignCvar a name text
  | world w h => exact .world a w h

end Effects

end Activation

/-! ## The number of registers -/

namespace Registers

@[simp] theorem size_set (r : Registers) (i : Nat) (w : Int32) : (r.set i w).size = r.size :=
  Array.size_setIfInBounds

@[simp] theorem size_setFloat (r : Registers) (i : Nat) (v : Float32) :
    (r.setFloat i v).size = r.size := size_set r i _

@[simp] theorem size_setVector (r : Registers) (i : Nat) (v : Vec3) :
    (r.setVector i v).size = r.size := by
  simp [setVector]

@[simp] theorem size_copy (r : Registers) (target source n : Nat) :
    (r.copy target source n).size = r.size := by
  induction n generalizing r target source with
  | zero => rfl
  | succ n ih => rw [copy, ih, size_set]

@[simp] theorem size_setWindow (r : Registers) (start : Nat) (words : List Int32) :
    (r.setWindow start words).size = r.size := by
  induction words generalizing r start with
  | nil => rfl
  | cons w rest ih => rw [setWindow, ih, size_set]

end Registers

open Activation

namespace Action

/-! ## Running actions -/

/-- The activation that an action ends with, whether it ends with a result or in a fault. -/
def final {α : Type} (x : Action α) (a : Activation) : Activation :=
  match x a with
  | .ok _ b => b
  | .error _ b => b

section Apply

variable {α β : Type} (a : Activation)

/-- An action that follows another starts where that one ends, unless it fails. -/
theorem bind_apply (x : Action α) (f : α → Action β) :
    (x >>= f) a = match x a with
      | .ok v b => f v b
      | .error e b => .error e b := by
  show EStateM.bind x f a = _
  unfold EStateM.bind
  cases x a <;> rfl

theorem machine_apply : machine a = .ok a.machine a := rfl

theorem world_apply : world a = .ok a.world a := rfl

theorem role_apply : role a = .ok a.machine.role a := rfl

theorem word_apply (i : Nat) : word i a = .ok (a.machine.registers.get i) a := rfl

theorem modifyMachine_apply (f : Machine → Machine) :
    modifyMachine f a = .ok () (a.mapMachine f) := rfl

/-- A sequence ends where its second action ends, or where the first one fails. -/
theorem final_bind (x : Action α) (f : α → Action β) :
    (x >>= f).final a = match x a with
      | .ok v b => (f v).final b
      | .error _ b => b := by
  unfold final
  rw [bind_apply]
  cases x a <;> rfl

/-- A handler goes on from the state in which the fault arose. -/
theorem final_tryCatch (x : Action α) (handler : Fault → Action α) :
    (tryCatch x handler).final a = match x a with
      | .ok _ b => b
      | .error e b => (handler e).final b := by
  show final (EStateM.tryCatch x handler) a = _
  unfold final EStateM.tryCatch
  cases x a <;> rfl

theorem bind_eq_ok {x : Action α} {f : α → Action β} {a c : Activation} {r : β} :
    (x >>= f) a = .ok r c ↔ ∃ v b, x a = .ok v b ∧ f v b = .ok r c := by
  rw [bind_apply]
  cases x a <;> simp

theorem bind_of_ok {x : Action α} {a b : Activation} {v : α} (h : x a = .ok v b)
    (f : α → Action β) : (x >>= f) a = f v b := by
  rw [bind_apply, h]

/-- A sequence fails in its first action or, after it, in its second. -/
theorem bind_eq_error {x : Action α} {f : α → Action β} {a c : Activation} {e : Fault} :
    (x >>= f) a = .error e c ↔
      x a = .error e c ∨ ∃ v b, x a = .ok v b ∧ f v b = .error e c := by
  rw [bind_apply]
  cases x a <;> simp

theorem map_eq_ok {x : Action α} {f : α → β} {a b : Activation} {r : β} :
    (f <$> x) a = .ok r b ↔ ∃ v, x a = .ok v b ∧ f v = r := by
  show EStateM.map f x a = _ ↔ _
  unfold EStateM.map
  cases x a <;> simp [and_comm]

theorem map_eq_error {x : Action α} {f : α → β} {a b : Activation} {e : Fault} :
    (f <$> x) a = .error e b ↔ x a = .error e b := by
  show EStateM.map f x a = _ ↔ _
  unfold EStateM.map
  cases x a <;> simp

theorem lift_eq_ok {x : Except Cause α} {a b : Activation} {v : α} :
    lift x a = .ok v b ↔ x = .ok v ∧ b = a := by
  constructor
  · intro h
    cases x with
    | error c => cases h
    | ok u => cases h; exact ⟨rfl, rfl⟩
  · rintro ⟨rfl, rfl⟩
    rfl

/-- What only computes changes nothing when it fails. -/
theorem lift_eq_error {x : Except Cause α} {a b : Activation} {e : Fault}
    (h : lift x a = .error e b) : b = a := by
  cases x with
  | error c => cases h; rfl
  | ok u => cases h

end Apply

/-! ## Confined actions -/

/-- An action that makes elementary changes only, and writes no words of entities. -/
class Confined {α : Type} (x : Action α) : Prop where
  effects : ∀ {writable : Nat → Prop} (a : Activation), Effects writable a (x.final a)

section Rules

variable {α β : Type}

/-- A confined action that succeeds has effects only. -/
theorem Confined.ok {x : Action α} (hx : Confined x) {writable : Nat → Prop} {a b : Activation}
    {v : α} (h : x a = .ok v b) : Effects writable a b := by
  have heffects : Effects writable a (x.final a) := hx.effects a
  rwa [final, h] at heffects

/-- A confined action that fails has effects only: nothing is undone. -/
theorem Confined.error {x : Action α} (hx : Confined x) {writable : Nat → Prop}
    {a b : Activation} {e : Fault} (h : x a = .error e b) : Effects writable a b := by
  have heffects : Effects writable a (x.final a) := hx.effects a
  rwa [final, h] at heffects

/-- An action that leaves everything as it is. -/
theorem Confined.of_final_eq {x : Action α} (h : ∀ a, x.final a = a) : Confined x :=
  ⟨fun a => by rw [h a]; exact .refl a⟩

instance (v : α) : Confined (pure v : Action α) := .of_final_eq fun _ => rfl

instance (x : Action α) (f : α → Action β) [hx : Confined x] [hf : ∀ v, Confined (f v)] :
    Confined (x >>= f) where
  effects {writable} a := by
    have h : Effects writable a (x.final a) := hx.effects a
    rw [final_bind]
    unfold final at h
    cases hr : x a with
    | ok v b => rw [hr] at h; exact h.trans ((hf v).effects b)
    | error e b => rw [hr] at h; exact h

theorem Confined.bind {x : Action α} {f : α → Action β} (_ : Confined x)
    (_ : ∀ v, Confined (f v)) : Confined (x >>= f) := inferInstance

instance (x : Action α) (f : α → β) [hx : Confined x] : Confined (f <$> x) where
  effects {writable} a := by
    have h : Effects writable a (x.final a) := hx.effects a
    have hmap : (f <$> x).final a = x.final a := by
      show final (EStateM.map f x) a = _
      unfold final EStateM.map
      cases x a <;> rfl
    rw [hmap]
    exact h

instance (x : Action α) [Confined x] : Confined (discard x) :=
  inferInstanceAs (Confined ((fun _ => PUnit.unit) <$> x))

instance (c : Prop) [Decidable c] (x y : Action α) [Confined x] [Confined y] :
    Confined (if c then x else y) := by
  split <;> infer_instance

instance (f : Fault) : Confined (throw f : Action α) := .of_final_eq fun _ => rfl

instance (c : Cause) : Confined (fail c : Action α) := .of_final_eq fun _ => rfl

/-- What would follow a fault does not matter. -/
instance (c : Cause) (f : α → Action β) : Confined ((fail c : Action α) >>= f) :=
  .of_final_eq fun _ => rfl

instance (x : Except Cause α) : Confined (lift x) := by
  unfold lift
  split <;> infer_instance

instance (x : Action α) (handler : Fault → Action α) [hx : Confined x]
    [hh : ∀ f, Confined (handler f)] : Confined (tryCatch x handler) where
  effects {writable} a := by
    have h : Effects writable a (x.final a) := hx.effects a
    unfold final at h
    rw [final_tryCatch]
    cases hr : x a with
    | ok v b => rw [hr] at h; exact h
    | error e b => rw [hr] at h; exact h.trans ((hh e).effects b)

/-- An action that looks at the machine first may do what is a change of just that machine. -/
theorem Confined.of_machine {f : Machine → Action α}
    (h : ∀ {writable : Nat → Prop} (a : Activation), Effects writable a ((f a.machine).final a)) :
    Confined (machine >>= f) where
  effects a := by
    rw [final_bind, machine_apply]
    exact h a

end Rules

/-! ## Reading -/

section Reading

instance : Confined (get : Action Activation) := .of_final_eq fun _ => rfl

instance : Confined machine := .of_final_eq fun _ => rfl

instance : Confined world := .of_final_eq fun _ => rfl

instance : Confined role := .of_final_eq fun _ => rfl

instance (i : Nat) : Confined (word i) := .of_final_eq fun _ => rfl

instance (i : Nat) : Confined (single i) := .of_final_eq fun _ => rfl

instance (i : Nat) : Confined (vector i) := .of_final_eq fun _ => rfl

instance : Confined argumentCount := .of_final_eq fun _ => rfl

end Reading

/-! ## Writing -/

section Writing

theorem Confined.modifyMachine {f : Machine → Machine}
    (h : ∀ {writable : Nat → Prop} (a : Activation), Effects writable a (a.mapMachine f)) :
    Confined (modifyMachine f) := ⟨h⟩

theorem Confined.modifyWorld {f : World → World}
    (h : ∀ {writable : Nat → Prop} (a : Activation), Effects writable a (a.mapWorld f)) :
    Confined (modifyWorld f) := ⟨h⟩

/-- The registers may be changed in any way that keeps their number. -/
theorem Confined.modifyRegisters {f : Registers → Registers} (h : ∀ r, (f r).size = r.size) :
    Confined (modifyRegisters f) :=
  .modifyMachine fun a => (Effect.registers a _ (h _)).effects

/-- The disk, the console, the log and the seed are everybody's. -/
instance (disk : World → Disk) (output commandText : World → Bytes)
    (queried : World → List String) (log : World → Log) (seed : World → StdGen) :
    Confined (Action.modifyWorld fun w => { w with
      disk := disk w, output := output w, commandText := commandText w, queried := queried w
      log := log w, seed := seed w }) :=
  .modifyWorld fun a => (Effect.world a _ (World.uses_common _ _ _ _ _ _ _ _)).effects

instance (level : Level) (text : Unit → String) : Confined (record level text) := by
  unfold record
  infer_instance

instance (text : String) : Confined (caution text) := by
  unfold caution World.caution
  infer_instance

instance (h : Int) : Confined (text h) := by
  unfold text
  refine .bind inferInstance fun a => ?_
  dsimp only
  split <;> infer_instance

end Writing

/-! ## Strings -/

section Strings

instance (s : Bytes) : Confined (temporary s) := by
  have hstore : Confined (machine >>= fun m => do
      modifyMachine fun m' => { m' with strings := (m.strings.temp s).2 }
      return (m.strings.temp s).1) :=
    .of_machine fun a => (Effect.strings a (.temp s)).effects
  unfold temporary
  dsimp only
  split
  · exact .bind inferInstance fun _ => hstore
  · exact hstore

instance (parts : List Bytes) : Confined (zone parts) := by
  unfold zone
  exact .of_machine fun a => (Effect.strings a (.zoned parts)).effects

instance (h : Int) : Confined (unzone h) := by
  unfold unzone
  refine .of_machine fun {writable} a => ?_
  cases hu : a.machine.strings.unzone? h with
  | some t =>
    have happly : a.machine.strings.apply (.unzone h) = t := by simp [StringTable.apply, hu]
    have heffect : Effects writable a _ := (Effect.strings a (.unzone h)).effects
    simp only [mapMachine, happly] at heffect
    simp only [hu]
    exact heffect
  | none =>
    simp only [hu]
    exact Confined.effects a

/-- Releasing a string says whether the handle names a zoned one; otherwise the machine stays. -/
theorem unzone_eq_ok {a : Activation} (hc : a.machine.strings.Consistent) (h : Int) :
    ∃ released b, unzone h a = .ok released b ∧
      (released = true ↔
        ∃ i s, h = StringTable.handle i ∧ a.machine.strings.known[i]? = some (.zoned s)) ∧
      (released = false → b.machine = a.machine) := by
  unfold unzone
  rw [bind_apply, machine_apply]
  dsimp only
  cases hu : a.machine.strings.unzone? h with
  | some t =>
    obtain ⟨i, s, hh, hs, -⟩ := (StringTable.unzone?_eq_some_iff hc).mp hu
    exact ⟨true, _, rfl, ⟨fun _ => ⟨i, s, hh, hs⟩, fun _ => rfl⟩, nofun⟩
  | none =>
    have hnot :
        ¬ ∃ i s, h = StringTable.handle i ∧ a.machine.strings.known[i]? = some (.zoned s) := by
      rintro ⟨i, s, hh, hs⟩
      rw [(StringTable.unzone?_eq_some_iff hc).mpr ⟨i, s, hh, hs, rfl⟩] at hu
      cases hu
    by_cases hnull : h = 0
    · subst hnull
      exact ⟨false, a, rfl, ⟨nofun, fun h => absurd h hnot⟩, fun _ => rfl⟩
    · dsimp only
      rw [if_pos (by simpa using hnull)]
      exact ⟨false, _, rfl, ⟨nofun, fun h => absurd h hnot⟩, fun _ => rfl⟩

end Strings

/-! ## Arguments and results -/

section Arguments

instance (n : Nat) : Confined (singleArgument n) := by unfold singleArgument; infer_instance

instance (n : Nat) : Confined (wordArgument n) := by unfold wordArgument; infer_instance

instance (n : Nat) : Confined (integerArgument n) := by unfold integerArgument; infer_instance

instance (n : Nat) : Confined (flagArgument n) := by unfold flagArgument; infer_instance

instance (n : Nat) : Confined (vectorArgument n) := by unfold vectorArgument; infer_instance

instance (n : Nat) : Confined (textArgument n) := by unfold textArgument; infer_instance

instance {α : Type} (read : Nat → Action α) [∀ n, Confined (read n)] (n : Nat) :
    Confined (argumentsFrom read n) := by
  have hread (n count : Nat) : Confined (readArguments read n count) := by
    induction count generalizing n with
    | zero => unfold readArguments; infer_instance
    | succ count ih => unfold readArguments; infer_instance
  unfold argumentsFrom
  infer_instance

instance (n : Nat) : Confined (textsFrom n) := by unfold textsFrom; infer_instance

instance (n : Nat) : Confined (textFrom n) := by unfold textFrom; infer_instance

instance (w : Int32) : Confined (returnWord w) :=
  .modifyRegisters fun r => r.size_set _ _

instance (v : Float32) : Confined (returnSingle v) :=
  .modifyRegisters fun r => r.size_setFloat _ _

instance (i : Int) : Confined (returnInteger i) := by unfold returnInteger; infer_instance

instance (b : Bool) : Confined (returnFlag b) := by unfold returnFlag; infer_instance

instance (v : Vec3) : Confined (returnVector v) :=
  .modifyRegisters fun r => r.size_setVector _ _

instance (s : Bytes) : Confined (returnText s) := by unfold returnText; infer_instance

instance : Confined returnNull := by unfold returnNull; infer_instance

instance (s : Option Bytes) : Confined (returnText? s) := by
  cases s <;> unfold returnText? <;> infer_instance

end Arguments

end Action

/-! ## A machine for a string table -/

namespace StringTable

/-- A machine with nothing but a string table. -/
def machineOf (t : StringTable) : Machine where
  role := .server
  program := {}
  registers := .ofGlobals #[]
  strings := t
  entities := .new 0 0
  slots := #[]
  extensions := false
  limit := 0

end StringTable

end QuakeVm
