import QuakeVm.Machine.Execute
import QuakeVm.Proofs.Builtins
import QuakeVm.Proofs.Entities

/-!
# What a step does

A step is one of three things: elementary changes, or such changes and then a function is entered, or
such changes and then the running function is left (`StepOutcome`). A step that ends in a fault has made
elementary changes only, because entering and leaving change nothing when they fail.

No builtin writes words of entities. The instructions that do are told apart by the pointers that they
write through: `Effects writable` allows those that `writable` says, and `Instruction.writes` says
which they are.
-/

namespace QuakeVm

open QuakeVm.Action Activation

/-! ## Instructions and the number of registers -/

namespace Instruction

/-- An instruction that computes keeps the number of registers. -/
def KeepsSize : Instruction → Prop
  | .compute f => ∀ r, (f r).size = r.size
  | _ => True

theorem keepsSize_ofStatement (op : Opcode) (s : Statement) : (ofStatement op s).KeepsSize := by
  cases op <;> simp [ofStatement, KeepsSize, arithmetic, vectors, test, move, setTruth]

end Instruction

/-! ## Confined parts of a step -/

instance (index : Int) : Confined (fetch index) := by
  have hstatement : Confined (modifyMachine fun m => { m with statement := index }) :=
    .modifyMachine fun a => (Effect.statement a index).effects
  unfold fetch
  refine .bind inferInstance fun m => ?_
  split
  · infer_instance
  · refine .bind hstatement fun _ => ?_
    split <;> infer_instance

instance (n : Nat) : Confined (modifyMachine fun m => { m with argumentCount := n }) :=
  .modifyMachine fun a => (Effect.argumentCount a n).effects

instance (slot : Nat) (name? : Option String) : Confined (bindSlot slot name?) := by
  unfold bindSlot
  refine .of_machine fun a => ?_
  dsimp only
  by_cases hallowed : a.machine.allows slot = true
  · rw [if_neg (by simp [hallowed])]
    cases hp : Primitive.resolve? slot a.machine.role with
    | none => dsimp only; exact Confined.effects a
    | some p =>
      dsimp only
      rw [final_bind]
      exact (Effect.bind a hallowed hp).effects.trans (Confined.effects _)
  · rw [if_pos (by simp [hallowed])]
    exact Confined.effects a

instance : Confined bindPending := by
  unfold bindPending
  refine .bind inferInstance fun m => ?_
  dsimp only
  split
  · refine .bind inferInstance fun s => ?_
    infer_instance
  · infer_instance

instance (slot : Nat) : Confined (dispatch slot) := by
  unfold dispatch
  refine .bind inferInstance fun m => ?_
  split <;> infer_instance

instance (slot : Nat) : Confined (callBuiltin slot) := by
  unfold callBuiltin
  infer_instance

instance (h : Int) : Confined (isEmptyText h) := by
  unfold isEmptyText
  infer_instance

instance (pointer target n : Nat) : Confined (loadWords pointer target n) := by
  have hset (i : Nat) (w : Int32) : Confined (modifyRegisters (·.set i w)) :=
    .modifyRegisters fun r => r.size_set i w
  induction n generalizing pointer target with
  | zero => unfold loadWords; infer_instance
  | succ n ih => unfold loadWords; infer_instance

instance (entity field : Nat) : Confined (fieldPointer entity field) := by
  unfold fieldPointer
  infer_instance

/-! ## Words of entities -/

theorem effects_storeWords (source pointer n : Nat) (a : Activation) :
    Effects (fun p => pointer ≤ p ∧ p < pointer + n) a ((storeWords source pointer n).final a) := by
  induction n generalizing source pointer a with
  | zero => exact .refl a
  | succ n ih =>
    unfold storeWords
    rw [final_bind, word_apply]
    dsimp only
    rw [final_bind, machine_apply]
    dsimp only
    rw [final_bind]
    cases h : a.machine.entities.write pointer (a.machine.registers.get source) with
    | error e => exact .refl a
    | ok e =>
      refine (Effect.write a ⟨Nat.le_refl _, by omega⟩ h).effects.trans ?_
      exact (ih (source + 1) (pointer + 1) _).mono fun p hp => ⟨by omega, by omega⟩

/-- Setting a field of an entity, and what follows where the fields are where they were. -/
theorem effects_setField_bind {α : Type} {writable : Nat → Prop} {entity field : Int}
    {w : Int32} {k : Unit → Action α} {a : Activation}
    (hp : ∀ p, a.machine.entities.pointer entity field = .ok p → writable p)
    (hk : ∀ b : Activation, b.machine.entities.pointer = a.machine.entities.pointer →
      Effects writable b ((k ()).final b)) :
    Effects writable a ((setField entity field w >>= k).final a) := by
  unfold setField
  rw [bind_assoc, final_bind, machine_apply]
  dsimp only
  rw [bind_assoc, final_bind]
  cases hpointer : a.machine.entities.pointer entity field with
  | error c =>
    have hset : a.machine.entities.set entity field w = .error c := by
      unfold Entities.set
      rw [hpointer]
      rfl
    rw [hset]
    exact .refl a
  | ok p =>
    have hset : a.machine.entities.set entity field w = a.machine.entities.write p w := by
      unfold Entities.set
      rw [hpointer]
      rfl
    rw [hset]
    cases hwrite : a.machine.entities.write p w with
    | error c => exact .refl a
    | ok e =>
      refine (Effect.write a (hp p hpointer) hwrite).effects.trans (hk _ ?_)
      funext number field
      exact Entities.pointer_of_write hwrite number field

theorem effects_setState (frame think : Nat) (a : Activation) :
    Effects (fun p => ∃ field,
        a.machine.entities.pointer (a.machine.registers.get selfRegister).toInt field = .ok p) a
      ((setState frame think).final a) := by
  unfold setState
  rw [final_bind, word_apply]
  dsimp only
  rw [final_bind, machine_apply]
  dsimp only
  cases a.machine.stateFields with
  | none => exact .refl a
  | some fields =>
    dsimp only
    rw [final_bind]
    refine effects_setField_bind (fun p hp => ⟨_, hp⟩) fun b hb => ?_
    rw [final_bind, word_apply]
    refine effects_setField_bind (fun p hp => ⟨_, hb ▸ hp⟩) fun c hc => ?_
    rw [final_bind, word_apply]
    dsimp only
    rw [← bind_pure (setField _ _ _)]
    refine effects_setField_bind (fun p hp => ⟨_, hb ▸ hc ▸ hp⟩) fun d _ => ?_
    exact .refl d

/-! ## Entering and leaving -/

/-- Replace the machine by one that a function of it gives, if it does. Entering and leaving functions
are of this form. -/
def switchMachine (f : Machine → Except Cause (Int × Machine)) : Action Int := do
  let (s, m) ← lift (f (← machine))
  modifyMachine fun _ => m
  return s

theorem switchMachine_eq_ok {f : Machine → Except Cause (Int × Machine)} {s : Int}
    {a b : Activation} :
    switchMachine f a = .ok s b ↔ ∃ m, f a.machine = .ok (s, m) ∧ b = { a with machine := m } := by
  unfold switchMachine
  rw [bind_apply, machine_apply]
  constructor
  · intro h
    obtain ⟨⟨s', m⟩, c, hl, hr⟩ := bind_eq_ok.mp h
    obtain ⟨he, rfl⟩ := lift_eq_ok.mp hl
    cases hr
    exact ⟨m, he, rfl⟩
  · rintro ⟨m, he, rfl⟩
    exact bind_eq_ok.mpr ⟨(s, m), a, lift_eq_ok.mpr ⟨he, rfl⟩, rfl⟩

theorem switchMachine_eq_error {f : Machine → Except Cause (Int × Machine)} {a b : Activation}
    {e : Fault} (h : switchMachine f a = .error e b) : b = a := by
  unfold switchMachine at h
  rw [bind_apply, machine_apply] at h
  rcases bind_eq_error.mp h with hl | ⟨r, c, -, hr⟩
  · exact lift_eq_error hl
  · cases hr

theorem enterFunction_eq_ok {number resume s : Int} {a b : Activation} :
    enterFunction number resume a = .ok s b ↔
      ∃ m, a.machine.enter number resume = .ok (s, m) ∧ b = { a with machine := m } :=
  switchMachine_eq_ok (f := (·.enter number resume))

theorem enterFunction_eq_error {number resume : Int} {a b : Activation} {e : Fault}
    (h : enterFunction number resume a = .error e b) : b = a :=
  switchMachine_eq_error (f := (·.enter number resume)) h

theorem leaveFunction_eq_ok {s : Int} {a b : Activation} :
    leaveFunction a = .ok s b ↔ ∃ m, a.machine.leave = .ok (s, m) ∧ b = { a with machine := m } :=
  switchMachine_eq_ok (f := Machine.leave)

theorem leaveFunction_eq_error {a b : Activation} {e : Fault} (h : leaveFunction a = .error e b) :
    b = a :=
  switchMachine_eq_error (f := Machine.leave) h

/-! ## Steps -/

/-- The pointers through which an instruction writes. -/
def Instruction.writes (m : Machine) : Instruction → Nat → Prop
  | .store _ pointer => fun p => p = pointerOf (m.registers.get pointer)
  | .storeVector _ pointer => fun p =>
    pointerOf (m.registers.get pointer) ≤ p ∧ p < pointerOf (m.registers.get pointer) + 3
  | .state _ _ => fun p =>
    ∃ field, m.entities.pointer (m.registers.get selfRegister).toInt field = .ok p
  | _ => fun _ => False

/-- The instruction of a statement, if there is one. -/
def Machine.instruction? (m : Machine) (s : Int) : Option Instruction :=
  (Program.entry? m.program.statements s).bind fun st =>
    (Opcode.ofNumber? st.op).map fun op => .ofStatement op st

/-- The pointers through which a statement writes. -/
def Machine.writes (m : Machine) (s : Int) (p : Nat) : Prop :=
  ∃ i, m.instruction? s = some i ∧ i.writes m p

/-- What a step from `a` to `b` is; `next` is the statement behind the one that it executes, and `r`
is the one to go on with. -/
inductive StepOutcome (writable : Nat → Prop) (exitDepth : Nat) (next : Int) (a b : Activation)
    (r : Option Int) : Prop where
  /-- The step changes no call. -/
  | advance (s : Int) (hr : r = some s) (heffects : Effects writable a b)
  /-- The step enters a function. -/
  | enter (c : Activation) (number s : Int) (hr : r = some s) (heffects : Effects writable a c)
    (hregisters : c.machine.registers = a.machine.registers)
    (henter : enterFunction number next c = .ok s b)
  /-- The step leaves the running function. -/
  | leave (c : Activation) (s : Int)
    (hr : r = if b.machine.depth = exitDepth then none else some s)
    (heffects : Effects writable a c) (hleave : leaveFunction c = .ok s b)

theorem StepOutcome.of_effects {writable : Nat → Prop} {exitDepth : Nat} {next : Int}
    {a a₁ b : Activation} {r : Option Int} (h : StepOutcome writable exitDepth next a₁ b r)
    (heffects : Effects writable a a₁) (hregisters : a₁.machine.registers = a.machine.registers) :
    StepOutcome writable exitDepth next a b r := by
  cases h with
  | advance s hr h => exact .advance s hr (heffects.trans h)
  | enter c number s hr h hc henter =>
    exact .enter c number s hr (heffects.trans h) (hc.trans hregisters) henter
  | leave c s hr h hleave => exact .leave c s hr (heffects.trans h) hleave

/-- Calling a function, after it has been looked up. -/
theorem callFunction_apply (number next : Int) (arguments : Nat) (a : Activation) :
    callFunction number arguments next a =
      (lift (a.machine.program.function number) >>= fun f =>
        match f.slot? with
        | some slot => do
          if Limits.builtins ≤ slot then fail (.badBuiltinNumber slot)
          callBuiltin slot
          return next
        | none => enterFunction number next)
      (a.mapMachine fun m => { m with argumentCount := arguments }) := by
  unfold callFunction
  rw [bind_apply, modifyMachine_apply]
  rfl

/-- A call that ends with a result has run a builtin or entered a function of the program. -/
theorem callFunction_eq_ok {number next s : Int} {arguments : Nat} {a b : Activation}
    (writable : Nat → Prop) (h : callFunction number arguments next a = .ok s b) :
    ∃ f, a.machine.program.function number = .ok f ∧
      (f.slot?.isSome ∧ Effects writable a b ∨
        f.slot? = none ∧ enterFunction number next
          (a.mapMachine fun m => { m with argumentCount := arguments }) = .ok s b) := by
  rw [callFunction_apply] at h
  obtain ⟨f, c, hlookup, h⟩ := bind_eq_ok.mp h
  obtain ⟨hf, rfl⟩ := lift_eq_ok.mp hlookup
  refine ⟨f, hf, ?_⟩
  cases hslot : f.slot? with
  | some slot =>
    rw [hslot] at h
    have hcount : Effects writable a _ := (Effect.argumentCount a arguments).effects
    exact Or.inl ⟨rfl, hcount.trans (Confined.ok inferInstance h)⟩
  | none =>
    rw [hslot] at h
    exact Or.inr ⟨rfl, h⟩

theorem callFunction_outcome {number next s : Int} {arguments : Nat} {a b : Activation}
    (writable : Nat → Prop) (exitDepth : Nat)
    (h : callFunction number arguments next a = .ok s b) :
    StepOutcome writable exitDepth next a b (some s) := by
  obtain ⟨f, -, ⟨-, heffects⟩ | ⟨-, henter⟩⟩ := callFunction_eq_ok writable h
  · exact .advance s rfl heffects
  · exact .enter _ number s rfl (Effect.argumentCount a arguments).effects rfl henter

theorem callFunction_eq_error {writable : Nat → Prop} {number next : Int} {arguments : Nat}
    {a b : Activation} {e : Fault} (h : callFunction number arguments next a = .error e b) :
    Effects writable a b := by
  have hcount : Effects writable a _ := (Effect.argumentCount a arguments).effects
  rw [callFunction_apply] at h
  rcases bind_eq_error.mp h with hlookup | ⟨f, c, hlookup, h⟩
  · rw [lift_eq_error hlookup]
    exact hcount
  obtain ⟨-, rfl⟩ := lift_eq_ok.mp hlookup
  cases hslot : f.slot? with
  | some slot =>
    rw [hslot] at h
    exact hcount.trans (Confined.error inferInstance h)
  | none =>
    rw [hslot] at h
    rw [enterFunction_eq_error h]
    exact hcount

/-- The instructions that stay in the running function. -/
def Instruction.Stays : Instruction → Prop
  | .call _ _ | .leave _ => False
  | _ => True

/-- The instructions that write words of entities. -/
def Instruction.Stores : Instruction → Prop
  | .store _ _ | .storeVector _ _ | .state _ _ => True
  | _ => False

theorem confined_perform {i : Instruction} (hsize : i.KeepsSize) (hstays : i.Stays)
    (hstores : ¬ i.Stores) (exitDepth : Nat) (next : Int) : Confined (perform exitDepth next i) := by
  have htruth (c : Nat) (b : Bool) : Confined (modifyRegisters (Instruction.setTruth · c b)) :=
    .modifyRegisters fun r => r.size_setFloat c _
  have hset (i : Nat) (w : Int32) : Confined (modifyRegisters (·.set i w)) :=
    .modifyRegisters fun r => r.size_set i w
  cases i with
  | compute f =>
    have : Confined (modifyRegisters f) := .modifyRegisters hsize
    unfold perform
    infer_instance
  | call function arguments => exact hstays.elim
  | leave value => exact hstays.elim
  | store source pointer => exact absurd trivial hstores
  | storeVector source pointer => exact absurd trivial hstores
  | state frame think => exact absurd trivial hstores
  | _ => unfold perform; infer_instance

/-- What follows a store is the number of the next statement. -/
theorem final_bind_pure {α β : Type} (x : Action α) (v : β) (a : Activation) :
    (x >>= fun _ => pure v).final a = x.final a := by
  rw [final_bind, final]
  cases x a <;> rfl

/-- An instruction that stays in the running function writes through its own pointers only. -/
theorem effects_perform {i : Instruction} (hsize : i.KeepsSize) (hstays : i.Stays)
    (exitDepth : Nat) (next : Int) (a : Activation) :
    Effects (i.writes a.machine) a ((perform exitDepth next i).final a) := by
  by_cases hstores : i.Stores
  · cases i with
    | store source pointer =>
      unfold perform
      rw [final_bind, word_apply]
      dsimp only
      rw [final_bind_pure]
      exact (effects_storeWords _ _ _ a).mono fun p hp => by
        show p = _
        omega
    | storeVector source pointer =>
      unfold perform
      rw [final_bind, word_apply]
      dsimp only
      rw [final_bind_pure]
      exact effects_storeWords _ _ _ a
    | state frame think =>
      unfold perform
      rw [final_bind_pure]
      exact effects_setState frame think a
    | _ => exact hstores.elim
  · exact (confined_perform hsize hstays hstores exitDepth next).effects a

/-- An action that names the statement to go on with whenever it ends with a result. -/
class Continues (x : Action (Option Int)) : Prop where
  result : ∀ {a b : Activation} {r : Option Int}, x a = .ok r b → ∃ s, r = some s

section Continues

instance (s : Int) : Continues (pure (some s)) := ⟨fun h => ⟨s, by cases h; rfl⟩⟩

instance {α : Type} (x : Action α) (f : α → Action (Option Int)) [hf : ∀ v, Continues (f v)] :
    Continues (x >>= f) where
  result h := by
    obtain ⟨v, b, -, h⟩ := bind_eq_ok.mp h
    exact (hf v).result h

instance (c : Prop) [Decidable c] (x y : Action (Option Int)) [Continues x] [Continues y] :
    Continues (if c then x else y) := by
  split <;> infer_instance

end Continues

theorem continues_perform {i : Instruction} (hstays : i.Stays) (exitDepth : Nat) (next : Int) :
    Continues (perform exitDepth next i) := by
  cases i with
  | call function arguments => exact hstays.elim
  | leave value => exact hstays.elim
  | _ => unfold perform; infer_instance

/-- Fetching finds a statement with a known opcode and makes it the current one. -/
theorem fetch_eq_ok {index : Int} {a b : Activation} {i : Instruction}
    (h : fetch index a = .ok i b) :
    ∃ st op, Program.entry? a.machine.program.statements index = some st ∧
      Opcode.ofNumber? st.op = some op ∧ i = .ofStatement op st ∧
      b.machine = { a.machine with statement := index } := by
  unfold fetch at h
  rw [bind_apply, machine_apply] at h
  dsimp only at h
  cases hentry : Program.entry? a.machine.program.statements index with
  | none => rw [hentry] at h; cases h
  | some st =>
    rw [hentry] at h
    dsimp only at h
    rw [bind_apply, modifyMachine_apply] at h
    cases hop : Opcode.ofNumber? st.op with
    | none => rw [hop] at h; cases h
    | some op =>
      rw [hop] at h
      dsimp only at h
      rw [bind_apply, machine_apply] at h
      dsimp only at h
      split at h <;> cases h <;> exact ⟨st, op, rfl, hop, rfl, rfl⟩

/-- Fetching a statement with a known opcode succeeds. -/
theorem fetch_of_entry {index : Int} {a : Activation} {st : Statement} {op : Opcode}
    (hst : Program.entry? a.machine.program.statements index = some st)
    (hop : Opcode.ofNumber? st.op = some op) :
    ∃ b, fetch index a = .ok (.ofStatement op st) b ∧
      b.machine = { a.machine with statement := index } := by
  unfold fetch
  rw [bind_apply, machine_apply]
  dsimp only
  rw [hst]
  dsimp only
  rw [bind_apply, modifyMachine_apply]
  dsimp only
  rw [hop]
  dsimp only
  rw [bind_apply, machine_apply]
  dsimp only
  split <;> exact ⟨_, rfl, rfl⟩

theorem step_of_fetch {index : Int} {a b : Activation} {i : Instruction} (exitDepth : Nat)
    (h : fetch index a = .ok i b) : step exitDepth index a = perform exitDepth (index + 1) i b := by
  unfold step
  rw [bind_apply, h]

theorem instruction?_of_fetch {index : Int} {a b : Activation} {i : Instruction}
    (h : fetch index a = .ok i b) : a.machine.instruction? index = some i := by
  obtain ⟨st, op, hst, hop, rfl, -⟩ := fetch_eq_ok h
  unfold Machine.instruction?
  rw [hst, Option.bind_some, hop, Option.map_some]

/-- Fetching leaves the registers and the entities alone, so an instruction writes where it would have
written before. -/
theorem writes_of_fetch {index : Int} {a b : Activation} {i : Instruction} {p : Nat}
    (h : fetch index a = .ok i b) (hp : i.writes b.machine p) : a.machine.writes index p := by
  refine ⟨i, instruction?_of_fetch h, ?_⟩
  obtain ⟨-, -, -, -, -, hmachine⟩ := fetch_eq_ok h
  rw [hmachine] at hp
  cases i <;> exact hp

/-- The value that a function returns. -/
def returnValue (value : Option Nat) : Action Unit :=
  match value with
  | some source => modifyRegisters (·.copy returnRegister source 3)
  | none => pure ()

instance (value : Option Nat) : Confined (returnValue value) := by
  cases value with
  | none => unfold returnValue; infer_instance
  | some source =>
    show Confined (modifyRegisters (·.copy returnRegister source 3))
    exact .modifyRegisters fun r => r.size_copy returnRegister source 3

/-- Leaving a function, with the value it returns. -/
theorem perform_leave (exitDepth : Nat) (next : Int) (value : Option Nat) :
    perform exitDepth next (.leave value) = do
      returnValue value
      let s ← leaveFunction
      if (← machine).depth == exitDepth then return none else return some s := by
  unfold perform returnValue
  cases value <;> rfl

theorem perform_leave_eq_ok {exitDepth : Nat} {next : Int} {value : Option Nat}
    {a b : Activation} {r : Option Int} (writable : Nat → Prop)
    (h : perform exitDepth next (.leave value) a = .ok r b) :
    ∃ c s, Effects writable a c ∧ leaveFunction c = .ok s b ∧
      r = if b.machine.depth = exitDepth then none else some s := by
  rw [perform_leave] at h
  obtain ⟨_, c, hvalue, h⟩ := bind_eq_ok.mp h
  obtain ⟨s, b₁, hleave, h⟩ := bind_eq_ok.mp h
  have hr : r = (if b₁.machine.depth = exitDepth then none else some s) ∧ b = b₁ := by
    rw [bind_apply, machine_apply] at h
    by_cases hd : b₁.machine.depth = exitDepth
    · simp only [hd, beq_self_eq_true, if_true] at h ⊢
      cases h
      exact ⟨rfl, rfl⟩
    · simp only [beq_false_of_ne hd, hd, Bool.false_eq_true, if_false] at h ⊢
      cases h
      exact ⟨rfl, rfl⟩
  obtain ⟨rfl, rfl⟩ := hr
  exact ⟨c, s, Confined.ok inferInstance hvalue, hleave, rfl⟩

/-- **A step makes changes, enters a function or leaves one.** The words of entities that it writes are
those that its statement says. -/
theorem step_outcome {exitDepth : Nat} {s : Int} {a b : Activation} {r : Option Int}
    (h : step exitDepth s a = .ok r b) :
    StepOutcome (a.machine.writes s) exitDepth (s + 1) a b r := by
  obtain ⟨i, a₁, hfetch, h⟩ := bind_eq_ok.mp h
  have hfetched : Effects (a.machine.writes s) a a₁ := Confined.ok inferInstance hfetch
  obtain ⟨st, op, -, -, hi, hmachine⟩ := fetch_eq_ok hfetch
  have hsize : i.KeepsSize := hi ▸ Instruction.keepsSize_ofStatement op st
  -- Fetching changes no register, so a call that follows finds those of `a`.
  suffices houtcome : StepOutcome (a.machine.writes s) exitDepth (s + 1) a₁ b r from
    houtcome.of_effects hfetched (by rw [hmachine])
  by_cases hstays : i.Stays
  · obtain ⟨s', rfl⟩ := (continues_perform hstays exitDepth (s + 1)).result h
    have heffects := effects_perform hsize hstays exitDepth (s + 1) a₁
    rw [final, h] at heffects
    exact .advance s' rfl (heffects.mono fun p => writes_of_fetch hfetch)
  · cases i with
    | call function arguments =>
      obtain ⟨w, a₂, hword, h⟩ := bind_eq_ok.mp h
      cases hword
      obtain ⟨s', hcall, rfl⟩ := map_eq_ok.mp h
      exact callFunction_outcome _ exitDepth hcall
    | leave value =>
      obtain ⟨c, s', heffects, hleave, hr⟩ := perform_leave_eq_ok _ h
      exact .leave c s' hr heffects hleave
    | _ => exact absurd trivial hstays

theorem perform_leave_eq_error {exitDepth : Nat} {next : Int} {value : Option Nat}
    {a b : Activation} {e : Fault} (writable : Nat → Prop)
    (h : perform exitDepth next (.leave value) a = .error e b) :
    Effects writable a b ∧ leaveFunction b = .error e b := by
  rw [perform_leave] at h
  rcases bind_eq_error.mp h with hvalue | ⟨_, c, hvalue, h⟩
  · -- Copying the value cannot fail.
    cases value <;> cases hvalue
  have heffects : Effects writable a c := Confined.ok inferInstance hvalue
  rcases bind_eq_error.mp h with hleave | ⟨s, b₁, hleave, h⟩
  · obtain rfl := leaveFunction_eq_error hleave
    exact ⟨heffects, hleave⟩
  · rw [bind_apply, machine_apply] at h
    dsimp only at h
    split at h <;> cases h

/-- A step that ends in a fault has entered no function and left none. -/
theorem effects_of_step_error {exitDepth : Nat} {s : Int} {a b : Activation} {e : Fault}
    (h : step exitDepth s a = .error e b) : Effects (a.machine.writes s) a b := by
  rcases bind_eq_error.mp h with hfetch | ⟨i, a₁, hfetch, h⟩
  · exact Confined.error inferInstance hfetch
  have hfetched : Effects (a.machine.writes s) a a₁ := Confined.ok inferInstance hfetch
  obtain ⟨st, op, -, -, hi, -⟩ := fetch_eq_ok hfetch
  have hsize : i.KeepsSize := hi ▸ Instruction.keepsSize_ofStatement op st
  refine hfetched.trans ?_
  by_cases hstays : i.Stays
  · have heffects := effects_perform hsize hstays exitDepth (s + 1) a₁
    rw [final, h] at heffects
    exact heffects.mono fun p => writes_of_fetch hfetch
  · cases i with
    | call function arguments =>
      rcases bind_eq_error.mp h with hword | ⟨w, a₂, hword, h⟩
      · cases hword
      cases hword
      exact callFunction_eq_error (map_eq_error.mp h)
    | leave value => exact (perform_leave_eq_error _ h).1
    | _ => exact absurd trivial hstays

/-! ## Executing a builtin -/

/-- Running the builtin of a function from the host; `m` is the machine before. -/
def executeBuiltin (m : Machine) (f : Function) (slot : Nat) : Action Unit := do
  if Limits.builtins ≤ slot then fail (.badBuiltinNumber slot)
  modifyMachine fun m => { m with argumentCount := f.parameterCount }
  if (m.slot? slot).isNone then discard (bindSlot slot none)
  callBuiltin slot

instance (m : Machine) (f : Function) (slot : Nat) : Confined (executeBuiltin m f slot) := by
  unfold executeBuiltin
  infer_instance

theorem execute_apply (number : Int) (a : Activation) :
    execute number a =
      (lift (a.machine.program.function number) >>= fun f =>
        match f.slot? with
        | some slot => executeBuiltin a.machine f slot
        | none => tryCatch (runFunction number) unwind) a := rfl

end QuakeVm
