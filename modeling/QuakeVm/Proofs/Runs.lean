import QuakeVm.Proofs.Calls

/-!
# What a run keeps

A property that every elementary change keeps, and that does not depend on where the calls are, holds
throughout a run and after it (`Invariant`, and `Kept` for properties of the machine alone). The
induction over the steps of a run is here, once: who wants an invariant of runs proves it for the
constructors of `Effect`.

A property may need that words of entities are written through some pointers only. Then the run has to
be one that writes through no other (`WritesOnly`). What counts are the statements that the run
executes: a run is stopped when it has executed too many, wherever the next steps would lead.
-/

namespace QuakeVm

open QuakeVm.Action Activation

/-! ## Globals that follow variables -/

namespace Machine

/-- The globals and the strings may differ between two machines, and nothing else. -/
def SameButGlobals (m m' : Machine) : Prop :=
  ∃ registers strings, m' = { m with registers, strings }

theorem sameButGlobals_assign (m : Machine) (v : Autocvar) (c : Cvar) :
    m.SameButGlobals (m.assign v c) := by
  unfold assign
  split <;> exact ⟨_, _, rfl⟩

theorem sameButGlobals_synchronize (m : Machine) (c : Cvars) (v : Autocvar) :
    m.SameButGlobals (m.synchronize c v) := by
  unfold synchronize
  split
  · exact m.sameButGlobals_assign v _
  · exact ⟨_, _, rfl⟩

theorem sameButGlobals_update (m : Machine) (c : Cvars) (name : String) :
    m.SameButGlobals (m.update c name) := by
  unfold update
  split
  · exact m.sameButGlobals_synchronize c _
  · exact ⟨_, _, rfl⟩

end Machine

theorem Activation.sameButGlobals_assignCvar (a : Activation) (name text : String) :
    a.machine.SameButGlobals (a.assignCvar name text).machine := by
  unfold assignCvar
  dsimp only
  split
  · exact a.machine.sameButGlobals_update _ _
  · exact ⟨_, _, rfl⟩

/-! ## Runs -/

/-- The run of a function from `a` comes to a point after a number of steps. -/
inductive RunsTo (number : Int) (a : Activation) : Nat → Point → Prop where
  | start {p : Point} (h : enterFunction number (-1) a = .ok p.next p.state) : RunsTo number a 0 p
  | advance {n : Nat} {p q : Point} (hp : RunsTo number a n p)
    (h : p.Advances a.machine.depth q) : RunsTo number a (n + 1) q

theorem RunsTo.runPoint {number : Int} {a : Activation} {n : Nat} {p : Point}
    (h : RunsTo number a n p) : RunPoint number a p := by
  induction h with
  | start h => exact .start h
  | advance _ h ih => exact .advance ih h

/-- The run of a function executes the statement at a point: it comes there before it is stopped. -/
def Executes (number : Int) (a : Activation) (p : Point) : Prop :=
  ∃ n, n + 1 < a.machine.limit ∧ RunsTo number a n p

theorem Executes.runPoint {number : Int} {a : Activation} {p : Point} (h : Executes number a p) :
    RunPoint number a p := by
  obtain ⟨n, -, hruns⟩ := h
  exact hruns.runPoint

/-- The run of a function writes words of entities through some pointers only. -/
def WritesOnly (writable : Nat → Prop) (number : Int) (a : Activation) : Prop :=
  ∀ p, Executes number a p → ∀ q, p.state.machine.writes p.next q → writable q

theorem writesOnly_true (number : Int) (a : Activation) : WritesOnly (fun _ => True) number a :=
  fun _ _ _ _ => trivial

theorem runFunction_apply (number : Int) (a : Activation) :
    runFunction number a = (enterFunction number (-1) >>= fun s => machine >>= fun m =>
      runFrom a.machine.depth (m.limit - 1) s) a := by
  unfold runFunction
  rw [bind_apply, machine_apply]

/-- A function of the program is run, and a fault of the run is unwound. -/
theorem execute_of_code {number : Int} {f : Function} {a : Activation}
    (hf : a.machine.program.function number = .ok f) (hslot : f.slot? = none) :
    execute number a = EStateM.tryCatch (runFunction number) unwind a := by
  rw [execute_apply, hf, bind_apply, lift_eq_ok.mpr ⟨rfl, rfl⟩]
  dsimp only
  rw [hslot]
  rfl

theorem execute_of_slot {number : Int} {f : Function} {slot : Nat} {a : Activation}
    (hf : a.machine.program.function number = .ok f) (hslot : f.slot? = some slot) :
    execute number a = executeBuiltin a.machine f slot a := by
  rw [execute_apply, bind_apply, hf, lift_eq_ok.mpr ⟨rfl, rfl⟩]
  dsimp only
  rw [hslot]

/-! ## Invariants of runs -/

/-- A property of activations that elementary changes keep, with writes through some pointers only,
and that calls do not touch. Calls change registers, not their number. -/
structure Invariant (writable : Nat → Prop) (P : Activation → Prop) : Prop where
  effect : ∀ {a b : Activation}, Effect writable a b → P a → P b
  calls : ∀ {a : Activation} (registers : Registers), registers.size = a.machine.registers.size →
    ∀ (calls : List Call) (saved : List Int32) (function : Int) (argumentCount : Nat), P a →
    P (a.mapMachine fun m => { m with registers, calls, saved, function, argumentCount })

/-- The limit of statements and the lock of the world are settings: programs do not change them. -/
theorem invariant_settings (limit : Nat) (locked : Bool) :
    Invariant (fun _ => True) fun a => a.machine.limit = limit ∧ a.machine.worldLocked = locked where
  effect h ha := by
    cases h with
    | assignCvar name text =>
      obtain ⟨registers, strings, heq⟩ := sameButGlobals_assignCvar _ name text
      rw [heq]
      exact ha
    | _ => exact ha
  calls _ _ _ _ _ _ ha := ha

namespace Invariant

variable {writable : Nat → Prop} {P : Activation → Prop} {a b : Activation} {number : Int}

theorem effects (hP : Invariant writable P) (h : Effects writable a b) (ha : P a) : P b := by
  induction h with
  | refl => exact ha
  | tail _ hstep ih => exact hP.effect hstep ih

theorem enterFunction {resume s : Int} (hP : Invariant writable P)
    (h : enterFunction number resume a = .ok s b) (ha : P a) : P b := by
  obtain ⟨m, hm, rfl⟩ := enterFunction_eq_ok.mp h
  unfold Machine.enter at hm
  cases hf : a.machine.program.function number with
  | error e => rw [hf] at hm; cases hm
  | ok f =>
    rw [hf] at hm
    dsimp only at hm
    split at hm
    · cases hm
    split at hm
    · cases hm
    cases hm
    exact hP.calls _ (Machine.size_copyParameters _ _ _ _) _ _ _ a.machine.argumentCount ha

theorem leaveFunction {s : Int} (hP : Invariant writable P) (h : leaveFunction a = .ok s b)
    (ha : P a) : P b := by
  obtain ⟨m, hm, rfl⟩ := leaveFunction_eq_ok.mp h
  unfold Machine.leave at hm
  cases hf : a.machine.program.function a.machine.function with
  | error e => rw [hf] at hm; cases hm
  | ok f =>
    rw [hf] at hm
    dsimp only at hm
    split at hm
    · cases hm
    split at hm
    · cases hm
    cases hm
    exact hP.calls _ (Registers.size_setWindow _ _ _) _ _ _ a.machine.argumentCount ha

/-- A step keeps the property, whether it ends with a result or in a fault. -/
theorem step (exitDepth : Nat) {s : Int} (hP : Invariant writable P)
    (hwrites : ∀ q, a.machine.writes s q → writable q) (ha : P a) :
    P ((step exitDepth s).final a) := by
  unfold final
  cases hstep : QuakeVm.step exitDepth s a with
  | error e b => exact hP.effects ((effects_of_step_error hstep).mono hwrites) ha
  | ok r b =>
    cases step_outcome hstep with
    | advance _ _ heffects => exact hP.effects (heffects.mono hwrites) ha
    | enter c _ _ _ heffects _ henter =>
      exact hP.enterFunction henter (hP.effects (heffects.mono hwrites) ha)
    | leave c _ _ heffects hleave =>
      exact hP.leaveFunction hleave (hP.effects (heffects.mono hwrites) ha)

/-- What no step breaks holds at every point that steps lead to. -/
theorem runPoint {p : Point} (hP : Invariant (fun _ => True) P) (ha : P a)
    (hp : RunPoint number a p) : P p.state := by
  induction hp with
  | start h => exact hP.enterFunction h ha
  | @advance p q _ h ih =>
    have hq := hP.step a.machine.depth (s := p.next) (fun _ _ => trivial) ih
    rwa [final, h] at hq

/-- The steps that a run takes from a point on: `k` have been taken, and `n` may follow. -/
theorem runFrom {n k : Nat} {p : Point} (hP : Invariant writable P)
    (hwrites : WritesOnly writable number a) (hp : RunsTo number a k p)
    (hlimit : k + n = a.machine.limit - 1) (ha : P p.state) :
    P ((runFrom a.machine.depth n p.next).final p.state) := by
  induction n generalizing k p with
  | zero => exact ha
  | succ n ih =>
    have hafter := hP.step a.machine.depth (hwrites p ⟨k, by omega, hp⟩) ha
    unfold QuakeVm.runFrom
    rw [final_bind]
    rw [final] at hafter
    cases hstep : QuakeVm.step a.machine.depth p.next p.state with
    | error e b => rw [hstep] at hafter; exact hafter
    | ok r b =>
      rw [hstep] at hafter
      cases r with
      | none => exact hafter
      | some s => exact ih (p := ⟨s, b⟩) (.advance hp hstep) (by omega) hafter

theorem runFunction (hP : Invariant writable P) (hwrites : WritesOnly writable number a)
    (ha : P a) : P ((runFunction number).final a) := by
  rw [final, runFunction_apply, ← final, final_bind]
  cases henter : QuakeVm.enterFunction number (-1) a with
  | error e b =>
    rw [enterFunction_eq_error henter]
    exact ha
  | ok s b =>
    obtain ⟨hlimit, -⟩ := (invariant_settings _ _).enterFunction henter ⟨rfl, rfl⟩
    dsimp only
    rw [final_bind, machine_apply]
    dsimp only
    rw [hlimit]
    exact hP.runFrom (p := ⟨s, b⟩) hwrites (.start henter) (Nat.zero_add _)
      (hP.enterFunction henter ha)

/-- What holds at the end of a run holds after a fault has been unwound: that is recorded, and the
machine comes to rest, which concerns its calls. -/
theorem unwound {f : Function} (hP : Invariant writable P)
    (hf : a.machine.program.function number = .ok f) (hslot : f.slot? = none)
    (h : P ((QuakeVm.runFunction number).final a)) : P ((QuakeVm.execute number).final a) := by
  rw [final] at h
  rw [final, execute_of_code hf hslot, ← final]
  show P ((tryCatch (QuakeVm.runFunction number) unwind).final a)
  rw [final_tryCatch]
  cases hr : QuakeVm.runFunction number a with
  | ok _ c => rw [hr] at h; exact h
  | error e c =>
    rw [hr] at h
    refine hP.calls c.machine.registers ?_ [] [] 0 0
      (hP.effect (.world c _ (World.uses_common _ _ _ _ _ _ _ _)) h)
    rfl

/-- **What steps keep holds after a function has been executed**, in whichever way it ended. -/
theorem execute (hP : Invariant writable P) (hwrites : WritesOnly writable number a)
    (ha : P a) : P ((execute number).final a) := by
  cases hf : a.machine.program.function number with
  | error e =>
    rw [final, execute_apply, hf]
    exact ha
  | ok f =>
    cases hslot : f.slot? with
    | none => exact hP.unwound hf hslot (hP.runFunction hwrites ha)
    | some slot =>
      rw [final, execute_of_slot hf hslot, ← final]
      have heffects : Effects writable a ((executeBuiltin a.machine f slot).final a) :=
        Confined.effects a
      exact hP.effects heffects ha

end Invariant

/-! ## What a run passes -/

theorem limit_of_enterFunction {number resume s : Int} {a b : Activation}
    (h : enterFunction number resume a = .ok s b) : b.machine.limit = a.machine.limit :=
  ((invariant_settings _ _).enterFunction h ⟨rfl, rfl⟩).1

/-- A run goes on from every point that it comes to, with the steps that are left. -/
theorem RunsTo.runFunction_eq {number : Int} {a : Activation} {k n : Nat} {p : Point}
    (hp : RunsTo number a k p) (hlimit : k + n = a.machine.limit - 1) :
    runFunction number a = runFrom a.machine.depth n p.next p.state := by
  induction hp generalizing n with
  | start h =>
    rw [runFunction_apply, bind_apply, h]
    dsimp only
    rw [bind_apply, machine_apply]
    dsimp only
    rw [limit_of_enterFunction h, ← hlimit, Nat.zero_add]
  | advance _ h ih =>
    rw [ih (n := n + 1) (by omega), runFrom, bind_apply, h]

/-- The execution of a function passes an activation: at a statement that it executes, or at its end. -/
inductive Passes (number : Int) (a : Activation) : Activation → Prop where
  | atEnd : Passes number a ((execute number).final a)
  | atStatement {f : Function} {p : Point} (hf : a.machine.program.function number = .ok f)
    (hslot : f.slot? = none) (hp : Executes number a p) : Passes number a p.state

namespace Passes

variable {P : Activation → Prop} {a b : Activation} {number : Int}

/-- What steps keep holds wherever an execution passes. -/
theorem holds (h : Passes number a b) (hP : Invariant (fun _ => True) P) (ha : P a) : P b := by
  cases h with
  | atEnd => exact hP.execute (writesOnly_true number a) ha
  | atStatement _ _ hp => exact hP.runPoint ha hp.runPoint

/-- What steps keep holds at the end of an execution if it holds somewhere on the way. -/
theorem holds_final (h : Passes number a b) (hP : Invariant (fun _ => True) P) (hb : P b) :
    P ((execute number).final a) := by
  cases h with
  | atEnd => exact hb
  | atStatement hf hslot hp =>
    obtain ⟨k, hlt, hruns⟩ := hp
    have hlimit : k + (a.machine.limit - 1 - k) = a.machine.limit - 1 := by omega
    refine hP.unwound hf hslot ?_
    rw [final, hruns.runFunction_eq hlimit, ← final]
    exact hP.runFrom (writesOnly_true number a) hruns hlimit hb

end Passes

/-! ## Invariants of the machine -/

/-- A property of machines that elementary changes keep, with writes through some pointers only, and
that calls do not touch. -/
structure Kept (writable : Nat → Prop) (P : Machine → Prop) : Prop where
  effect : ∀ {a b : Activation}, Effect writable a b → P a.machine → P b.machine
  calls : ∀ {m : Machine} (registers : Registers), registers.size = m.registers.size →
    ∀ (calls : List Call) (saved : List Int32) (function : Int) (argumentCount : Nat), P m →
    P { m with registers, calls, saved, function, argumentCount }

namespace Kept

variable {writable : Nat → Prop} {P : Machine → Prop} {a b : Activation} {number : Int}

theorem invariant (hP : Kept writable P) : Invariant writable fun a => P a.machine :=
  ⟨hP.effect, hP.calls⟩

theorem effects (hP : Kept writable P) (h : Effects writable a b) (ha : P a.machine) :
    P b.machine := hP.invariant.effects h ha

theorem enterFunction {resume s : Int} (hP : Kept writable P)
    (h : enterFunction number resume a = .ok s b) (ha : P a.machine) : P b.machine :=
  hP.invariant.enterFunction h ha

theorem step (exitDepth : Nat) {s : Int} (hP : Kept writable P)
    (hwrites : ∀ q, a.machine.writes s q → writable q) (ha : P a.machine) :
    P ((step exitDepth s).final a).machine := hP.invariant.step exitDepth hwrites ha

theorem runPoint {p : Point} (hP : Kept (fun _ => True) P) (ha : P a.machine)
    (hp : RunPoint number a p) : P p.state.machine := hP.invariant.runPoint ha hp

theorem execute (hP : Kept writable P) (hwrites : WritesOnly writable number a)
    (ha : P a.machine) : P ((execute number).final a).machine := hP.invariant.execute hwrites ha

end Kept

theorem kept_settings (limit : Nat) (locked : Bool) :
    Kept (fun _ => True) fun m => m.limit = limit ∧ m.worldLocked = locked :=
  ⟨(invariant_settings limit locked).effect, fun _ _ _ _ _ _ hm => hm⟩

end QuakeVm
