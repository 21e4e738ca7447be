import QuakeVm.Proofs.Linking

/-!
# Which builtins a program can call

A program may ask whether a builtin can be called before it calls it. The answer is worked out from the
catalogue and the slots, and dispatching a call works on its own: it looks into the slot, binds it if
it holds nothing, and the host does the same once more. All of them come to one condition on the
machine (`Machine.Provides`), in every state that a loaded program comes to.
-/

namespace QuakeVm

open QuakeVm.Action Activation

/-! ## What a machine provides -/

/-- Every slot of a table that holds something holds what it stands for, and may do so. -/
structure SoundSlots (role : Role) (extensions : Bool) (slots : Array (Option Primitive)) :
    Prop where
  size_eq : slots.size = Limits.builtins
  resolve_eq : ∀ {s p}, slots.getD s none = some p → Primitive.resolve? s role = some p
  allowed : ∀ {s p}, slots.getD s none = some p → s < Limits.baseBuiltins ∨ extensions = true

namespace Machine

/-- A slot stands for a builtin, and the machine may use it. -/
def Provides (m : Machine) (slot : Nat) (p : Primitive) : Prop :=
  m.allows slot = true ∧ Primitive.resolve? slot m.role = some p

/-- The function of a number is the builtin of a slot: its first statement is the slot, negated. -/
def NamesSlot (m : Machine) (number : Int) (slot : Nat) : Prop :=
  ∃ f, m.program.function number = .ok f ∧ f.firstStatement.toInt = -(slot : Int) ∧ 0 < slot

/-- Slots of the base set are always open, the others if extensions are. -/
theorem allows_iff {m : Machine} {slot : Nat} :
    m.allows slot = true ↔ slot < Limits.baseBuiltins ∨ m.extensions = true := by
  unfold allows
  rw [Bool.or_eq_true, decide_eq_true_eq]

/-- The slots of a machine are sound. -/
def Sound (m : Machine) : Prop := SoundSlots m.role m.extensions m.slots

/-- The slots of a linked machine are sound. -/
theorem Linked.sound {m : Machine} (hm : m.Linked) : m.Sound where
  size_eq := hm.size_slots
  resolve_eq := hm.resolve_of_slot
  allowed {s p} h := by
    rcases Nat.lt_or_ge s Limits.baseBuiltins with hlt | hle
    · exact Or.inl hlt
    · exact Or.inr (hm.extensions_of_slot hle h)

/-- A slot that is bound is bound to what the machine provides. -/
theorem Sound.provides_of_slot {m : Machine} (hm : m.Sound) {slot : Nat} {p : Primitive}
    (h : m.slot? slot = some p) : m.Provides slot p :=
  ⟨allows_iff.mpr (hm.allowed h), hm.resolve_eq h⟩

theorem Linked.provides_of_slot {m : Machine} (hm : m.Linked) {slot : Nat} {p : Primitive}
    (h : m.slot? slot = some p) : m.Provides slot p := hm.sound.provides_of_slot h

theorem resolve_eq_none {m : Machine} {slot : Nat} (hnone : ∀ p, ¬ m.Provides slot p)
    (hallowed : m.allows slot = true) : Primitive.resolve? slot m.role = none :=
  Option.eq_none_iff_forall_ne_some.mpr fun p hp => hnone p ⟨hallowed, hp⟩

/-- A function is usable if its slot is in range, is not a stub and stands for something. -/
theorem Sound.usable_iff {m : Machine} (hm : m.Sound) (number : Int) :
    m.usable number = true ↔ ∃ slot, m.NamesSlot number slot ∧ slot < Limits.builtins ∧
      isStub slot = false ∧ ∃ p, m.Provides slot p := by
  unfold usable NamesSlot
  cases hf : m.program.function number with
  | error c => simp
  | ok f =>
    simp only [Except.ok.injEq, exists_eq_left', ← Function.slot?_eq_some]
    cases hslot : f.slot? with
    | none => simp
    | some slot =>
      simp only [Option.some.injEq, exists_eq_left', Bool.and_eq_true, decide_eq_true_eq,
        Bool.not_eq_true', and_assoc]
      refine and_congr_right fun _ => and_congr_right fun _ => ?_
      cases hs : m.slot? slot with
      | some p => simp only [true_iff]; exact ⟨p, hm.provides_of_slot hs⟩
      | none =>
        simp only [Provides, exists_and_left, Option.isSome_iff_exists, Bool.and_eq_true]

theorem Linked.usable_iff {m : Machine} (hm : m.Linked) (number : Int) :
    m.usable number = true ↔ ∃ slot, m.NamesSlot number slot ∧ slot < Limits.builtins ∧
      isStub slot = false ∧ ∃ p, m.Provides slot p := hm.sound.usable_iff number

end Machine

/-! ## Reaching a builtin -/

/-- What executing a builtin does before its slot is dispatched; `m` is the machine at first. -/
def prepareBuiltin (m : Machine) (f : Function) (slot : Nat) : Action Unit := do
  modifyMachine fun m => { m with argumentCount := f.parameterCount }
  if (m.slot? slot).isNone then discard (bindSlot slot none)
  announce slot

/-- Executing a function comes to the body of a builtin, in the state `c`. -/
def ExecuteReaches (number : Int) (a : Activation) (slot : Nat) (p : Primitive) (c : Activation) :
    Prop :=
  slot < Limits.builtins ∧ ∃ f b, a.machine.program.function number = .ok f ∧ f.slot? = some slot ∧
    prepareBuiltin a.machine f slot a = .ok () b ∧ dispatch slot b = .ok p c

/-- A statement calls a function. -/
def CallsAt (s : Int) (a : Activation) (number : Int) : Prop :=
  ∃ function arguments b, fetch s a = .ok (.call function arguments) b ∧
    (b.machine.registers.get function).toInt = number

/-- A statement that calls a function comes to the body of a builtin, in the state `c`. -/
def CallReaches (s : Int) (a : Activation) (number : Int) (slot : Nat) (p : Primitive)
    (c : Activation) : Prop :=
  ∃ b, Dispatches s a number slot b ∧ dispatch slot b = .ok p c

/-- A fault that says that there is no builtin to call. -/
def Fault.IsUnavailable (slot : Nat) (e : Fault) : Prop :=
  (∃ name?, e.cause = .unimplementedBuiltin slot name?) ∨ e.cause = .badBuiltinNumber slot

/-- To name the builtin leaves the cause of a fault. -/
theorem cause_nameBuiltin (slot : Nat) (e : Fault) : (nameBuiltin slot e).cause = e.cause := by
  unfold nameBuiltin
  split
  · cases e <;> rfl
  · rfl

theorem isUnavailable_missing (slot : Nat) (name? : Option String) :
    (missing slot name?).IsUnavailable slot := Or.inl ⟨_, rfl⟩

theorem isUnavailable_bad (slot : Nat) :
    Fault.IsUnavailable slot (.ofCause (.badBuiltinNumber slot)) := Or.inr rfl

theorem isUnavailable_nameBuiltin {slot : Nat} {e : Fault} (h : e.IsUnavailable slot) :
    (nameBuiltin slot e).IsUnavailable slot := by
  unfold Fault.IsUnavailable
  rw [cause_nameBuiltin]
  exact h

section Execute

variable {number : Int} {a : Activation} {f : Function} {slot : Nat}

/-- A builtin that is executed is prepared, and then its slot is run. -/
theorem executeBuiltin_apply (m : Machine) (hlt : slot < Limits.builtins) :
    executeBuiltin m f slot a = (prepareBuiltin m f slot >>= fun _ => runSlot slot) a := by
  unfold executeBuiltin prepareBuiltin
  rw [if_neg (by omega), bind_assoc]
  dsimp only
  rw [bind_apply, bind_apply, modifyMachine_apply]
  dsimp only
  split
  · rw [bind_assoc, bind_apply, bind_apply]
    cases discard (bindSlot slot none) _ <;> rfl
  · rfl

/-- For a bound slot the arguments are counted and the call is announced, and that is all. -/
theorem prepareBuiltin_of_bound {m : Machine} {p : Primitive} (h : m.slot? slot = some p) :
    prepareBuiltin m f slot a = .ok () ((announce slot).final
      (a.mapMachine fun m => { m with argumentCount := f.parameterCount })) := by
  unfold prepareBuiltin
  rw [h]
  rfl

theorem prepareBuiltin_of_unbound {m : Machine} (h : m.slot? slot = none) :
    prepareBuiltin m f slot a = (bindSlot slot none >>= fun _ => announce slot)
      (a.mapMachine fun m => { m with argumentCount := f.parameterCount }) := by
  unfold prepareBuiltin
  rw [h, bind_apply, modifyMachine_apply]
  dsimp only
  rw [if_pos Option.isNone_none]
  show (((fun _ => ()) <$> bindSlot slot none) >>= fun _ => announce slot) _ = _
  rw [bind_map_left]

/-- A slot that the machine provides is found, whether it was bound before or not. -/
theorem prepareBuiltin_of_provides {p : Primitive} (hm : a.machine.Linked)
    (hlt : slot < Limits.builtins) (hp : a.machine.Provides slot p) :
    ∃ b, prepareBuiltin a.machine f slot a = .ok () b ∧ dispatch slot b = .ok p b := by
  cases hslot : a.machine.slot? slot with
  | some q =>
    obtain rfl : q = p := Option.some.inj ((hm.provides_of_slot hslot).2.symm.trans hp.2)
    exact ⟨_, prepareBuiltin_of_bound hslot, dispatch_of_bound hslot⟩
  | none =>
    obtain ⟨b, hbind, hb⟩ := bindSlot_of_resolve
      (a := a.mapMachine fun m => { m with argumentCount := f.parameterCount }) none hp.1 hp.2
    have hbound : b.machine.slot? slot = some p := by
      rw [hb]
      exact Machine.slot?_bind_self _ p (Nat.lt_of_lt_of_eq hlt hm.size_slots.symm)
    refine ⟨(announce slot).final b, ?_, dispatch_of_bound hbound⟩
    rw [prepareBuiltin_of_unbound hslot, bind_apply, hbind]
    rfl

/-- A slot that stands for nothing is missing when it is prepared. -/
theorem prepareBuiltin_of_missing (hm : a.machine.Linked) (hnone : ∀ p, ¬ a.machine.Provides slot p) :
    ∃ b, prepareBuiltin a.machine f slot a = .error (missing slot none) b ∧
      b.machine.slots = a.machine.slots := by
  cases hslot : a.machine.slot? slot with
  | some q => exact absurd (hm.provides_of_slot hslot) (hnone q)
  | none =>
    obtain ⟨b, hbind, hb⟩ := bindSlot_of_missing
      (a := a.mapMachine fun m => { m with argumentCount := f.parameterCount }) none
      (Machine.resolve_eq_none hnone)
    refine ⟨b, ?_, by rw [hb]; rfl⟩
    rw [prepareBuiltin_of_unbound hslot, bind_apply, hbind]

end Execute

section Call

variable {s number : Int} {a b : Activation} {slot : Nat}

theorem exists_dispatches (hcall : CallsAt s a number) (hnames : a.machine.NamesSlot number slot)
    (hlt : slot < Limits.builtins) : ∃ b, Dispatches s a number slot b := by
  obtain ⟨function, arguments, c, hfetch, hnumber⟩ := hcall
  obtain ⟨f, hf, hslot⟩ := hnames
  obtain ⟨-, -, -, -, -, hc⟩ := fetch_eq_ok hfetch
  have hfc : c.machine.program.function number = .ok f := by
    rw [hc]
    exact hf
  exact ⟨_, ⟨c, function, arguments, f, hfetch, hnumber, hfc, Function.slot?_eq_some.mpr hslot,
    rfl⟩, hlt⟩

/-- A call of what a slot stands for gets there. -/
theorem dispatch_of_provides {p : Primitive} (hm : a.machine.Linked)
    (h : Dispatches s a number slot b) (hp : a.machine.Provides slot p) :
    ∃ c, dispatch slot b = .ok p c := by
  obtain ⟨arguments, hb⟩ := h.machine_eq
  cases hslot : a.machine.slot? slot with
  | some q =>
    obtain rfl : q = p := Option.some.inj ((hm.provides_of_slot hslot).2.symm.trans hp.2)
    exact ⟨b, dispatch_of_bound (by rw [hb]; exact hslot)⟩
  | none =>
    rw [dispatch_of_unbound (by rw [hb]; exact hslot), bindPending_of_dispatches h]
    obtain ⟨c, hc, -⟩ := bindSlot_of_resolve (a := b) (p := p)
      (some (b.machine.program.functionName number)) (by rw [hb]; exact hp.1)
      (by rw [hb]; exact hp.2)
    exact ⟨c, hc⟩

/-- A call of a slot that stands for nothing names the function that was called. -/
theorem dispatch_of_missing (hm : a.machine.Linked) (h : Dispatches s a number slot b)
    (hnone : ∀ p, ¬ a.machine.Provides slot p) :
    ∃ c, dispatch slot b =
        .error (missing slot (some (b.machine.program.functionName number))) c ∧
      c.machine.slots = a.machine.slots := by
  obtain ⟨arguments, hb⟩ := h.machine_eq
  have hslot : b.machine.slot? slot = none := by
    rw [hb]
    exact Option.eq_none_iff_forall_ne_some.mpr fun p hp => hnone p (hm.provides_of_slot hp)
  have hmissing : b.machine.allows slot = true →
      Primitive.resolve? slot b.machine.role = none := by
    rw [hb]
    exact Machine.resolve_eq_none hnone
  obtain ⟨c, hc, hmachine⟩ :=
    bindSlot_of_missing (some (b.machine.program.functionName number)) hmissing
  refine ⟨c, ?_, by rw [hmachine, hb]⟩
  rw [dispatch_of_unbound hslot, bindPending_of_dispatches h, hc]

/-- A call of a slot that does not exist is a fault. -/
theorem step_of_badSlot (exitDepth : Nat) (hcall : CallsAt s a number)
    (hnames : a.machine.NamesSlot number slot) (hle : Limits.builtins ≤ slot) :
    ∃ c, step exitDepth s a = .error (.ofCause (.badBuiltinNumber slot)) c ∧
      c.machine.slots = a.machine.slots := by
  obtain ⟨function, arguments, b, hfetch, hnumber⟩ := hcall
  obtain ⟨f, hf, hslot⟩ := hnames
  obtain ⟨-, -, -, -, -, hb⟩ := fetch_eq_ok hfetch
  have hfb : b.machine.program.function number = .ok f := by
    rw [hb]
    exact hf
  refine ⟨b.mapMachine fun m => { m with argumentCount := arguments }, ?_, ?_⟩
  · rw [step_of_fetch exitDepth hfetch]
    unfold perform
    dsimp only
    rw [bind_apply, word_apply]
    dsimp only
    rw [map_eq_error, hnumber, callFunction_apply, hfb, bind_apply, lift_eq_ok.mpr ⟨rfl, rfl⟩]
    dsimp only
    rw [Function.slot?_eq_some.mpr hslot]
    dsimp only
    rw [if_pos hle]
    rfl
  · show b.machine.slots = _
    rw [hb]

end Call

/-! ## The answer and the call -/

/-- Execution from outside reaches a primitive exactly if the slot stands for one. -/
theorem executeReaches_iff {number : Int} {a : Activation} {slot : Nat} (hm : a.machine.Linked)
    (hnames : a.machine.NamesSlot number slot) (hlt : slot < Limits.builtins) :
    (∃ p c, ExecuteReaches number a slot p c) ↔ ∃ p, a.machine.Provides slot p := by
  obtain ⟨f, hf, hslot⟩ := hnames
  rw [← Function.slot?_eq_some] at hslot
  constructor
  · rintro ⟨p, c, -, f', b, hf', -, hprepare, -⟩
    obtain rfl : f = f' := Except.ok.inj (hf.symm.trans hf')
    by_contra hnone
    obtain ⟨e, he, -⟩ := prepareBuiltin_of_missing (f := f) hm fun p hp => hnone ⟨p, hp⟩
    rw [hprepare] at he
    cases he
  · rintro ⟨p, hp⟩
    obtain ⟨b, hprepare, hdispatch⟩ := prepareBuiltin_of_provides (f := f) hm hlt hp
    exact ⟨p, b, hlt, f, b, hf, hslot, hprepare, hdispatch⟩

/-- A call in a program reaches a primitive exactly if the slot stands for one. -/
theorem callReaches_iff {s number : Int} {a : Activation} {slot : Nat} (hm : a.machine.Linked)
    (hcall : CallsAt s a number) (hnames : a.machine.NamesSlot number slot)
    (hlt : slot < Limits.builtins) :
    (∃ p c, CallReaches s a number slot p c) ↔ ∃ p, a.machine.Provides slot p := by
  constructor
  · rintro ⟨p, c, b, hb, hdispatch⟩
    by_contra hnone
    obtain ⟨d, hd, -⟩ := dispatch_of_missing hm hb fun p hp => hnone ⟨p, hp⟩
    rw [hdispatch] at hd
    cases hd
  · rintro ⟨p, hp⟩
    obtain ⟨b, hb⟩ := exists_dispatches hcall hnames hlt
    obtain ⟨c, hc⟩ := dispatch_of_provides hm hb hp
    exact ⟨p, c, b, hb, hc⟩

/-- What the answer about a function says about calling it in a state. -/
structure UsablePredicts (a : Activation) (number : Int) : Prop where
  execute_iff : a.machine.usable number = true ↔
    ∃ slot, a.machine.NamesSlot number slot ∧ slot < Limits.builtins ∧ isStub slot = false ∧
      ∃ p c, ExecuteReaches number a slot p c
  call_iff : ∀ s, CallsAt s a number → (a.machine.usable number = true ↔
    ∃ slot, a.machine.NamesSlot number slot ∧ slot < Limits.builtins ∧ isStub slot = false ∧
      ∃ p c, CallReaches s a number slot p c)
  /-- Reaching a builtin is running its body. -/
  execute_of_reaches : ∀ slot p c, ExecuteReaches number a slot p c →
    execute number a = runPrimitive slot p c
  call_of_reaches : ∀ s slot p c exitDepth, CallReaches s a number slot p c →
    step exitDepth s a = (runPrimitive slot p >>= fun _ => pure (some (s + 1))) c
  /-- Not to reach one is a fault that says so, and binds nothing. -/
  execute_of_not_reaches : ∀ slot, a.machine.NamesSlot number slot →
    (¬ ∃ p c, ExecuteReaches number a slot p c) →
    ∃ e c, execute number a = .error e c ∧ e.IsUnavailable slot ∧
      c.machine.slots = a.machine.slots
  call_of_not_reaches : ∀ s slot exitDepth, CallsAt s a number →
    a.machine.NamesSlot number slot → (¬ ∃ p c, CallReaches s a number slot p c) →
    ∃ e c, step exitDepth s a = .error e c ∧ e.IsUnavailable slot ∧
      c.machine.slots = a.machine.slots
  /-- A program that asks gets the answer, and asking binds nothing. -/
  check : (a.machine.registers.get (parameter 0)).toInt = number →
    ∃ b, Builtins.run .checkbuiltin a = .ok () b ∧ b.machine.slots = a.machine.slots ∧
      b.machine.registers =
        a.machine.registers.setFloat returnRegister (if a.machine.usable number then 1 else 0)

theorem execute_of_executeReaches {number : Int} {a c : Activation} {slot : Nat} {p : Primitive}
    (h : ExecuteReaches number a slot p c) : execute number a = runPrimitive slot p c := by
  obtain ⟨hlt, f, b, hf, hslot, hprepare, hdispatch⟩ := h
  rw [execute_of_slot hf hslot, executeBuiltin_apply _ hlt, bind_apply, hprepare]
  exact runSlot_of_ok hdispatch

theorem execute_of_not_executeReaches {number : Int} {a : Activation} {slot : Nat}
    (hm : a.machine.Linked) (hnames : a.machine.NamesSlot number slot)
    (hnone : ¬ ∃ p c, ExecuteReaches number a slot p c) :
    ∃ e c, execute number a = .error e c ∧ e.IsUnavailable slot ∧
      c.machine.slots = a.machine.slots := by
  obtain ⟨f, hf, hfirst⟩ := id hnames
  have hslot := Function.slot?_eq_some.mpr hfirst
  by_cases hlt : slot < Limits.builtins
  · rw [executeReaches_iff hm hnames hlt, not_exists] at hnone
    obtain ⟨c, hc, hslots⟩ := prepareBuiltin_of_missing (f := f) hm hnone
    refine ⟨_, c, ?_, isUnavailable_missing slot none, hslots⟩
    rw [execute_of_slot hf hslot, executeBuiltin_apply _ hlt, bind_apply, hc]
  · refine ⟨_, a, ?_, isUnavailable_bad slot, rfl⟩
    rw [execute_of_slot hf hslot]
    unfold executeBuiltin
    rw [if_pos (by omega)]
    rfl

theorem step_of_not_callReaches {s number : Int} {a : Activation} {slot : Nat} (exitDepth : Nat)
    (hm : a.machine.Linked) (hcall : CallsAt s a number) (hnames : a.machine.NamesSlot number slot)
    (hnone : ¬ ∃ p c, CallReaches s a number slot p c) :
    ∃ e c, step exitDepth s a = .error e c ∧ e.IsUnavailable slot ∧
      c.machine.slots = a.machine.slots := by
  by_cases hlt : slot < Limits.builtins
  · rw [callReaches_iff hm hcall hnames hlt, not_exists] at hnone
    obtain ⟨b, hb⟩ := exists_dispatches hcall hnames hlt
    obtain ⟨c, hc, hslots⟩ := dispatch_of_missing hm hb hnone
    have hstep := step_of_dispatches exitDepth hb
    rw [bind_apply, runSlot_of_error hc] at hstep
    exact ⟨_, c, hstep, isUnavailable_nameBuiltin (isUnavailable_missing slot _), hslots⟩
  · obtain ⟨c, hc, hslots⟩ := step_of_badSlot exitDepth hcall hnames (Nat.not_lt.mp hlt)
    exact ⟨_, c, hc, isUnavailable_bad slot, hslots⟩

/-- **The answer whether a builtin can be called is the right one.** In every state that a loaded
program comes to, a function is usable exactly if it is a builtin that is complete and a call of it
comes to the body of the builtin, be it a call of the host or of a statement. -/
theorem usable_predicts_calls {a : Activation} (ha : Reached a) (number : Int) :
    UsablePredicts a number where
  execute_iff := by
    rw [ha.linked.usable_iff]
    refine exists_congr fun slot => and_congr_right fun hnames => and_congr_right fun hlt => ?_
    rw [executeReaches_iff ha.linked hnames hlt]
  call_iff s hcall := by
    rw [ha.linked.usable_iff]
    refine exists_congr fun slot => and_congr_right fun hnames => and_congr_right fun hlt => ?_
    rw [callReaches_iff ha.linked hcall hnames hlt]
  execute_of_reaches _ _ _ h := execute_of_executeReaches h
  call_of_reaches s slot p c exitDepth h := by
    obtain ⟨b, hb, hdispatch⟩ := h
    rw [step_of_dispatches exitDepth hb, bind_apply, bind_apply, runSlot_of_ok hdispatch]
  execute_of_not_reaches _ hnames hnone := execute_of_not_executeReaches ha.linked hnames hnone
  call_of_not_reaches _ _ exitDepth hcall hnames hnone :=
    step_of_not_callReaches exitDepth ha.linked hcall hnames hnone
  check hnumber := by
    subst hnumber
    exact ⟨_, rfl, rfl, rfl⟩

theorem usable_predicts_calls_measuring :
    measuringLoaded.machine.usable 1 = true ∧
    (∃ slot p c, ExecuteReaches 1 measuringLoaded slot p c) ∧
    ∃ slot p c, CallReaches 1 measuringLoaded 1 slot p c := by
  have ha : Reached measuringLoaded := ⟨_, _, _, .refl⟩
  have hprovides : measuringLoaded.machine.Provides 114 .strlen :=
    ⟨by decide +kernel, by decide +kernel⟩
  have husable : measuringLoaded.machine.usable 1 = true :=
    (ha.linked.usable_iff 1).mpr ⟨114, ⟨{ firstStatement := -114 }, rfl, by decide, by decide⟩,
      by decide, by decide +kernel, .strlen, hprovides⟩
  have hcall : CallsAt 1 measuringLoaded 1 := ⟨28, 1, _, rfl, rfl⟩
  obtain ⟨slot, -, -, -, hexecute⟩ := (usable_predicts_calls ha 1).execute_iff.mp husable
  obtain ⟨slot', -, -, -, hreaches⟩ := ((usable_predicts_calls ha 1).call_iff 1 hcall).mp husable
  exact ⟨husable, ⟨slot, hexecute⟩, slot', hreaches⟩

end QuakeVm
