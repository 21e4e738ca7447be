import QuakeVm.Proofs.Runs

/-!
# What builtin slots hold

A slot is bound once, to the builtin that its number and the role of the program stand for. Two facts
carry everything here. What happens to a program changes a slot only in one way, from whatever it held
to what it stands for, where the machine allows that (`Relinks`). And the slots of a loaded program
hold what they stand for or nothing (`Linked`), which a change of the first kind keeps.

A slot outside of the base set is bound by the first call. The interpreter knows the slot it calls, but
binding works the slot out again from the current statement. `bindPending_of_dispatches` says that it
comes to the same one.
-/

namespace QuakeVm

open QuakeVm.Action Activation

/-! ## Slots -/

namespace Machine

/-- The machine with a slot bound. -/
def bind (m : Machine) (slot : Nat) (p : Primitive) : Machine :=
  { m with slots := m.slots.setIfInBounds slot (some p) }

/-- A slot in range holds what it was bound to. -/
theorem slot?_bind_self (m : Machine) {slot : Nat} (p : Primitive) (h : slot < m.slots.size) :
    (m.bind slot p).slot? slot = some p := by
  unfold slot? bind
  rw [Array.getD_eq_getD_getElem?, Array.getElem?_setIfInBounds_self_of_lt h]
  rfl

/-- Binding a slot leaves the others. -/
theorem slot?_bind_ne (m : Machine) {slot s : Nat} (p : Primitive) (h : slot ≠ s) :
    (m.bind slot p).slot? s = m.slot? s := by
  unfold slot? bind
  rw [Array.getD_eq_getD_getElem?, Array.getD_eq_getD_getElem?, Array.getElem?_setIfInBounds_ne h]

theorem bind_of_size_le (m : Machine) {slot : Nat} (p : Primitive) (h : m.slots.size ≤ slot) :
    m.bind slot p = m := by
  unfold bind
  rw [Array.setIfInBounds, dif_neg (by omega)]

theorem size_initialSlots (role : Role) : (initialSlots role).size = Limits.builtins := by
  unfold initialSlots
  exact Array.size_ofFn

/-- At first the slots of the base set are bound, and no others. -/
theorem getElem?_initialSlots (role : Role) {s : Nat} (h : s < Limits.builtins) :
    (initialSlots role)[s]? =
      some (if s < Limits.baseBuiltins then Primitive.resolve? s role else none) := by
  unfold initialSlots
  rw [Array.getElem?_ofFn, dif_pos h]

theorem slots_new (role : Role) (p : Program) (c : Cvars) :
    (new role p c).slots = initialSlots role := by
  rw [new]

/-- Slots of the base set hold what they stand for when a program is loaded, the others nothing. -/
theorem slot?_new (role : Role) (p : Program) (c : Cvars) (s : Nat) :
    (new role p c).slot? s =
      if s < Limits.baseBuiltins then Primitive.resolve? s role else none := by
  rw [slot?, slots_new, Array.getD_eq_getD_getElem?]
  by_cases hs : s < Limits.builtins
  · rw [getElem?_initialSlots role hs, Option.getD_some]
  · have hbase : ¬ s < Limits.baseBuiltins := by
      unfold Limits.builtins at hs
      unfold Limits.baseBuiltins
      omega
    rw [Array.getElem?_eq_none (by rw [size_initialSlots]; omega), if_neg hbase, Option.getD_none]

/-- Two machines have the same slots and the same say in what they may hold. -/
structure SameLinkage (m m' : Machine) : Prop where
  role_eq : m'.role = m.role
  extensions_eq : m'.extensions = m.extensions
  slots_eq : m'.slots = m.slots

theorem SameLinkage.trans {m m' m'' : Machine} (h : m.SameLinkage m') (h' : m'.SameLinkage m'') :
    m.SameLinkage m'' :=
  ⟨h'.role_eq.trans h.role_eq, h'.extensions_eq.trans h.extensions_eq,
    h'.slots_eq.trans h.slots_eq⟩

theorem SameLinkage.slot?_eq {m m' : Machine} (h : m.SameLinkage m') (s : Nat) :
    m'.slot? s = m.slot? s := by
  unfold slot?
  rw [h.slots_eq]

/-- Machines that differ only in what globals hold have the same slots. -/
theorem SameLinkage.of_sameButGlobals {m m' : Machine} (h : m.SameButGlobals m') :
    m.SameLinkage m' := by
  obtain ⟨registers, strings, rfl⟩ := h
  exact ⟨rfl, rfl, rfl⟩

/-! ## How slots change -/

/-- Slots differ between two machines only where they have been bound to what they stand for. -/
structure Relinks (m m' : Machine) : Prop where
  role_eq : m'.role = m.role
  extensions_eq : m'.extensions = m.extensions
  size_eq : m'.slots.size = m.slots.size
  slot : ∀ s, m'.slot? s = m.slot? s ∨
    m.allows s = true ∧ ∃ p, Primitive.resolve? s m.role = some p ∧ m'.slot? s = some p

theorem SameLinkage.relinks {m m' : Machine} (h : m.SameLinkage m') : m.Relinks m' :=
  ⟨h.role_eq, h.extensions_eq, by rw [h.slots_eq], fun s => Or.inl (h.slot?_eq s)⟩

theorem Relinks.refl (m : Machine) : m.Relinks m := SameLinkage.relinks ⟨rfl, rfl, rfl⟩

/-- Binding slots opens none. -/
theorem Relinks.allows_eq {m m' : Machine} (h : m.Relinks m') (s : Nat) :
    m'.allows s = m.allows s := by
  unfold allows
  rw [h.extensions_eq]

theorem Relinks.trans {m m' m'' : Machine} (h : m.Relinks m') (h' : m'.Relinks m'') :
    m.Relinks m'' where
  role_eq := h'.role_eq.trans h.role_eq
  extensions_eq := h'.extensions_eq.trans h.extensions_eq
  size_eq := h'.size_eq.trans h.size_eq
  slot s := by
    rcases h'.slot s with hsame | ⟨hallowed, p, hp, hslot⟩
    · rw [hsame]
      exact h.slot s
    · rw [h.allows_eq] at hallowed
      rw [h.role_eq] at hp
      exact Or.inr ⟨hallowed, p, hp, hslot⟩

/-- A slot is bound to what it stands for. -/
theorem relinks_bind {m : Machine} {slot : Nat} {p : Primitive} (hallowed : m.allows slot = true)
    (hp : Primitive.resolve? slot m.role = some p) : m.Relinks (m.bind slot p) where
  role_eq := rfl
  extensions_eq := rfl
  size_eq := Array.size_setIfInBounds
  slot s := by
    by_cases hs : slot = s
    · subst hs
      by_cases hlt : slot < m.slots.size
      · exact Or.inr ⟨hallowed, p, hp, m.slot?_bind_self p hlt⟩
      · rw [m.bind_of_size_le p (by omega)]
        exact Or.inl rfl
    · exact Or.inl (m.slot?_bind_ne p hs)

/-- Programs do not change their slots otherwise than by binding them. -/
theorem kept_relinks (m : Machine) : Kept (fun _ => True) m.Relinks where
  effect h ha := by
    cases h with
    | bind hallowed hp => exact ha.trans (relinks_bind hallowed hp)
    | assignCvar name text =>
      exact ha.trans (SameLinkage.of_sameButGlobals (sameButGlobals_assignCvar _ name text)).relinks
    | _ => exact ha.trans (SameLinkage.relinks ⟨rfl, rfl, rfl⟩)
  calls _ _ _ _ _ _ hm := hm.trans (SameLinkage.relinks ⟨rfl, rfl, rfl⟩)

/-! ## What slots hold -/

/-- Slots hold what they stand for. Those of the base set do so from the beginning, and the others
only where extensions are enabled. -/
structure Linked (m : Machine) : Prop where
  size_slots : m.slots.size = Limits.builtins
  resolve_of_slot : ∀ {s p}, m.slot? s = some p → Primitive.resolve? s m.role = some p
  slot_of_base : ∀ {s}, s < Limits.baseBuiltins → m.slot? s = Primitive.resolve? s m.role
  extensions_of_slot : ∀ {s p}, Limits.baseBuiltins ≤ s → m.slot? s = some p → m.extensions = true

/-- A new machine is linked. -/
theorem linked_new (role : Role) (p : Program) (c : Cvars) : (new role p c).Linked where
  size_slots := by rw [slots_new, size_initialSlots]
  resolve_of_slot {s q} h := by
    rw [slot?_new] at h
    split at h
    · exact h
    · cases h
  slot_of_base h := by rw [slot?_new, if_pos h]; rfl
  extensions_of_slot {s q} hs h := by
    rw [slot?_new, if_neg (by omega)] at h
    cases h

/-- Machines stay linked. -/
theorem Relinks.linked {m m' : Machine} (h : m.Relinks m') (hm : m.Linked) : m'.Linked where
  size_slots := h.size_eq.trans hm.size_slots
  resolve_of_slot {s p} hp := by
    rw [h.role_eq]
    rcases h.slot s with hsame | ⟨-, q, hq, hslot⟩
    · exact hm.resolve_of_slot (hsame ▸ hp)
    · rw [hslot] at hp
      cases hp
      exact hq
  slot_of_base {s} hs := by
    rw [h.role_eq]
    rcases h.slot s with hsame | ⟨-, q, hq, hslot⟩
    · rw [hsame, hm.slot_of_base hs]
    · rw [hslot, hq]
  extensions_of_slot {s p} hs hp := by
    rw [h.extensions_eq]
    rcases h.slot s with hsame | ⟨hallowed, -⟩
    · exact hm.extensions_of_slot hs (hsame ▸ hp)
    · -- Outside of the base set a machine allows what its extensions allow.
      unfold allows at hallowed
      simpa [Nat.not_lt.mpr hs] using hallowed

/-- A slot that is bound stays as it is. -/
theorem Relinks.slot_eq {m m' : Machine} (h : m.Relinks m') (hm : m.Linked) {s : Nat}
    {p : Primitive} (hp : m.slot? s = some p) : m'.slot? s = some p := by
  rcases h.slot s with hsame | ⟨-, q, hq, hslot⟩
  · rw [hsame, hp]
  · rw [hslot, ← hq, hm.resolve_of_slot hp]

end Machine

/-! ## Loaded programs and what happens to them -/

namespace Activation

/-- Variables have nothing to do with slots. -/
theorem sameLinkage_declare (s : Activation) (v : Autocvar) :
    s.machine.SameLinkage (s.declare v).machine := by
  unfold declare
  split
  · exact .of_sameButGlobals (s.machine.sameButGlobals_synchronize _ v)
  · dsimp only
    split <;> split <;> exact ⟨rfl, rfl, rfl⟩

theorem sameLinkage_declareAll (s : Activation) : s.machine.SameLinkage s.declareAll.machine := by
  have hfold (l : List Autocvar) (s : Activation) :
      s.machine.SameLinkage (l.foldl declare s).machine := by
    induction l generalizing s with
    | nil => exact ⟨rfl, rfl, rfl⟩
    | cons v l ih => exact (s.sameLinkage_declare v).trans (ih _)
  have hfound := hfold (Autocvar.ofProgram s.machine.program) s
  exact ⟨hfound.role_eq, hfound.extensions_eq, hfound.slots_eq⟩

theorem sameLinkage_link (s : Activation) : s.machine.SameLinkage s.link.machine := by
  unfold link
  dsimp only
  split <;> exact ⟨rfl, rfl, rfl⟩

/-- Loading a program goes on from its new machine without binding a slot. -/
theorem sameLinkage_load (role : Role) (p : Program) (w : World) :
    (Machine.new role p w.cvars).SameLinkage (load role p w).machine :=
  (sameLinkage_link ⟨.new role p w.cvars, w⟩).trans (sameLinkage_declareAll _)

/-- A loaded program is linked. -/
theorem linked_load (role : Role) (p : Program) (w : World) : (load role p w).machine.Linked :=
  (sameLinkage_load role p w).relinks.linked (Machine.linked_new role p w.cvars)

/-- What can happen to a program next. The world changes by itself; the host executes a function or
has a slot bound; and a run begins or goes on. -/
inductive Happens : Activation → Activation → Prop where
  | world (a : Activation) (w : World) : Happens a { a with world := w }
  | execute (a : Activation) (number : Int) : Happens a ((execute number).final a)
  | bindSlot (a : Activation) (slot : Nat) (name? : Option String) :
    Happens a ((bindSlot slot name?).final a)
  | bindPending (a : Activation) : Happens a (bindPending.final a)
  | enter {a b : Activation} {number s : Int} (h : enterFunction number (-1) a = .ok s b) :
    Happens a b
  | step (a : Activation) (exitDepth : Nat) (s : Int) : Happens a ((step exitDepth s).final a)

/-- One state comes to another, whatever happens in between and whether it succeeds or not. -/
def Later : Activation → Activation → Prop := Relation.ReflTransGen Happens

/-- The states that a loaded program comes to. -/
def Reached (a : Activation) : Prop := ∃ role p w, Later (load role p w) a

/-- What steps keep holds of a machine whatever happens to it. -/
theorem Happens.keeps {P : Machine → Prop} {a b : Activation} (h : Happens a b)
    (hP : Kept (fun _ => True) P) (ha : P a.machine) : P b.machine := by
  cases h with
  | world w => exact ha
  | execute number => exact hP.execute (writesOnly_true number a) ha
  | bindSlot slot name? => exact hP.effects (Confined.effects a) ha
  | bindPending => exact hP.effects (Confined.effects a) ha
  | enter h => exact hP.enterFunction h ha
  | step exitDepth s => exact hP.step exitDepth (fun _ _ => trivial) ha

/-- What steps keep holds of every later machine. -/
theorem Later.keeps {P : Machine → Prop} {a b : Activation} (h : Later a b)
    (hP : Kept (fun _ => True) P) (ha : P a.machine) : P b.machine := by
  induction h with
  | refl => exact ha
  | tail _ hnext ih => exact hnext.keeps hP ih

theorem Later.relinks {a b : Activation} (h : Later a b) : a.machine.Relinks b.machine :=
  h.keeps a.machine.kept_relinks (.refl _)

/-- Every machine that is reached is linked. -/
theorem Reached.linked {a : Activation} (h : Reached a) : a.machine.Linked := by
  obtain ⟨role, p, w, hlater⟩ := h
  exact hlater.relinks.linked (linked_load role p w)

end Activation

/-! ## Binding a slot -/

/-- The fault of a slot that cannot be bound. -/
def missing (slot : Nat) (name? : Option String) : Fault :=
  .ofCause (.unimplementedBuiltin slot (name?.or ((catalog.lookup? slot).map (·.entry.name))))

/-- Two worlds are the same but for what their logs say. -/
def World.SameButLog (w w' : World) : Prop :=
  ∃ log : Log, log.threshold = w.log.threshold ∧ w' = { w with log }

theorem Log.threshold_add (l : Log) (level : Level) (text : Unit → String) :
    (l.add level text).threshold = l.threshold := by
  unfold add
  split <;> rfl

theorem World.SameButLog.refl (w : World) : w.SameButLog w := ⟨w.log, rfl, rfl⟩

theorem World.SameButLog.trans {w w' w'' : World} (h : w.SameButLog w') (h' : w'.SameButLog w'') :
    w.SameButLog w'' := by
  obtain ⟨log, hlog, rfl⟩ := h
  obtain ⟨log', hlog', rfl⟩ := h'
  exact ⟨log', hlog'.trans hlog, rfl⟩

theorem World.sameButLog_add (w : World) (level : Level) (text : Unit → String) :
    w.SameButLog { w with log := w.log.add level text } :=
  ⟨_, w.log.threshold_add level text, rfl⟩

theorem World.sameButLog_caution (w : World) (text : String) : w.SameButLog (w.caution text) :=
  ⟨w.log.caution text, w.log.threshold_add .warn fun _ => text, rfl⟩

/-- A slot that stands for something is bound, and the world differs in the log at most. -/
theorem bindSlot_eq_ok {slot : Nat} {a : Activation} {p : Primitive} (name? : Option String)
    (hallowed : a.machine.allows slot = true)
    (hp : Primitive.resolve? slot a.machine.role = some p) :
    ∃ w, bindSlot slot name? a = .ok p ⟨a.machine.bind slot p, w⟩ ∧ a.world.SameButLog w := by
  unfold bindSlot
  rw [bind_apply, machine_apply]
  dsimp only
  rw [if_neg (by simp [hallowed]), hp]
  dsimp only
  rw [bind_apply, modifyMachine_apply]
  dsimp only
  split
  · exact ⟨_, rfl, a.world.sameButLog_caution _⟩
  · rw [bind_apply, world_apply]
    dsimp only
    split
    · exact ⟨_, rfl, a.world.sameButLog_caution _⟩
    · exact ⟨_, rfl, a.world.sameButLog_add _ _⟩

theorem bindSlot_of_resolve {slot : Nat} {a : Activation} {p : Primitive} (name? : Option String)
    (hallowed : a.machine.allows slot = true)
    (hp : Primitive.resolve? slot a.machine.role = some p) :
    ∃ b, bindSlot slot name? a = .ok p b ∧ b.machine = a.machine.bind slot p := by
  obtain ⟨w, hok, -⟩ := bindSlot_eq_ok name? hallowed hp
  exact ⟨_, hok, rfl⟩

/-- A slot that is closed or stands for nothing is missing, and the machine stays as it is. -/
theorem bindSlot_eq_missing {slot : Nat} {a : Activation} (name? : Option String)
    (h : a.machine.allows slot = true → Primitive.resolve? slot a.machine.role = none) :
    ∃ w, bindSlot slot name? a = .error (missing slot name?) { a with world := w } ∧
      a.world.SameButLog w := by
  unfold bindSlot
  rw [bind_apply, machine_apply]
  dsimp only
  by_cases hallowed : a.machine.allows slot = true
  · rw [if_neg (by simp [hallowed]), h hallowed]
    exact ⟨_, rfl, a.world.sameButLog_add _ _⟩
  · rw [if_pos (by simp [hallowed])]
    exact ⟨_, rfl, a.world.sameButLog_add _ _⟩

theorem bindSlot_of_missing {slot : Nat} {a : Activation} (name? : Option String)
    (h : a.machine.allows slot = true → Primitive.resolve? slot a.machine.role = none) :
    ∃ b, bindSlot slot name? a = .error (missing slot name?) b ∧ b.machine = a.machine := by
  obtain ⟨w, herror, -⟩ := bindSlot_eq_missing name? h
  exact ⟨_, herror, rfl⟩

/-- **A slot can be bound if the machine allows it and it stands for a builtin.** Then it holds that
builtin, and otherwise nothing changes. -/
theorem bindSlot_cases (slot : Nat) (name? : Option String) (a : Activation) :
    (∃ p b, a.machine.allows slot = true ∧ Primitive.resolve? slot a.machine.role = some p ∧
      bindSlot slot name? a = .ok p b ∧ b.machine = a.machine.bind slot p) ∨
    ∃ b, (a.machine.allows slot = true → Primitive.resolve? slot a.machine.role = none) ∧
      bindSlot slot name? a = .error (missing slot name?) b ∧ b.machine = a.machine := by
  by_cases h : a.machine.allows slot = true → Primitive.resolve? slot a.machine.role = none
  · obtain ⟨b, hb, hmachine⟩ := bindSlot_of_missing name? h
    exact Or.inr ⟨b, h, hb, hmachine⟩
  · simp only [Classical.not_imp, ← Option.isSome_iff_ne_none, Option.isSome_iff_exists] at h
    obtain ⟨hallowed, p, hp⟩ := h
    obtain ⟨b, hb, hmachine⟩ := bindSlot_of_resolve name? hallowed hp
    exact Or.inl ⟨p, b, hallowed, hp, hb, hmachine⟩

theorem bindSlot_eq_error {slot : Nat} {name? : Option String} {a b : Activation} {e : Fault}
    (h : bindSlot slot name? a = .error e b) : b.machine = a.machine := by
  rcases bindSlot_cases slot name? a with ⟨p, c, -, -, hok, -⟩ | ⟨c, -, herror, hmachine⟩
  · rw [h] at hok
    cases hok
  · rw [h] at herror
    cases herror
    exact hmachine

/-- Binding the slot of the current call, when the call has been read: it names a builtin, or there is
a fault. -/
theorem bindPending_of_entry {a : Activation} {st : Statement}
    (hst : Program.entry? a.machine.program.statements a.machine.statement = some st)
    (hcall : ((Opcode.ofNumber? st.op).bind Opcode.arguments?).isSome) :
    bindPending a =
      (lift (a.machine.program.function (a.machine.registers.get st.a.toNat).toInt) >>= fun f =>
        if -f.firstStatement.toInt ≤ 0 || (Limits.builtins : Int) ≤ -f.firstStatement.toInt then
          fail (.badBuiltinNumber (-f.firstStatement.toInt))
        else bindSlot (-f.firstStatement.toInt).toNat
          (some (a.machine.program.functionName (a.machine.registers.get st.a.toNat).toInt))) a := by
  unfold bindPending
  rw [bind_apply, machine_apply]
  dsimp only
  rw [hst]
  dsimp only
  rw [pure_bind, if_neg (by simpa using Option.isSome_iff_ne_none.mp hcall)]
  rfl

/-- Binding the slot of the current call ends in a fault at once, or it binds some slot. -/
theorem bindPending_cases (a : Activation) :
    (∃ e, bindPending a = .error e a) ∨
      ∃ slot name?, bindPending a = bindSlot slot name? a := by
  cases hst : Program.entry? a.machine.program.statements a.machine.statement with
  | none =>
    refine Or.inl ⟨.ofCause (.badStatement a.machine.statement), ?_⟩
    unfold bindPending
    rw [bind_apply, machine_apply]
    dsimp only
    rw [hst]
    rfl
  | some st =>
    by_cases hcall : ((Opcode.ofNumber? st.op).bind Opcode.arguments?).isSome
    · rw [bindPending_of_entry hst hcall, bind_apply]
      cases a.machine.program.function (a.machine.registers.get st.a.toNat).toInt with
      | error c => exact Or.inl ⟨.ofCause c, rfl⟩
      | ok f =>
        have hlift : lift (.ok f) a = .ok f a := rfl
        rw [hlift]
        dsimp only
        split
        · exact Or.inl ⟨_, rfl⟩
        · exact Or.inr ⟨_, _, rfl⟩
    · refine Or.inl ⟨.ofCause (.badStatement a.machine.statement), ?_⟩
      unfold bindPending
      rw [bind_apply, machine_apply]
      dsimp only
      rw [hst]
      dsimp only
      rw [pure_bind, if_pos (by simpa using hcall)]
      rfl

/-- Binding the slot of the current call changes nothing when it fails. -/
theorem bindPending_eq_error {a b : Activation} {e : Fault} (h : bindPending a = .error e b) :
    b.machine = a.machine := by
  rcases bindPending_cases a with ⟨e', he⟩ | ⟨slot, name?, hbind⟩
  · rw [he] at h
    cases h
    rfl
  · exact bindSlot_eq_error (hbind.symm.trans h)

/-! ## Calling a builtin -/

/-- The slot of a builtin is its first statement, negated. -/
theorem Function.slot?_eq_some {f : Function} {slot : Nat} :
    f.slot? = some slot ↔ f.firstStatement.toInt = -(slot : Int) ∧ 0 < slot := by
  have hneg : f.firstStatement < 0 ↔ f.firstStatement.toInt < 0 := Int32.lt_iff_toInt_lt
  unfold Function.slot?
  by_cases h : f.firstStatement < 0
  · rw [if_pos h, Option.some_inj]
    rw [hneg] at h
    omega
  · rw [if_neg h]
    rw [hneg] at h
    constructor
    · intro hnone
      cases hnone
    · omega

/-- The record about a call of a builtin. -/
def announce (slot : Nat) : Action Unit := do
  let m ← machine
  record .trace fun _ => s!"builtin #{slot} ({m.argumentCount} args)"

/-- What a call of a builtin does after the record. -/
def runSlot (slot : Nat) : Action Unit :=
  tryCatch (do Builtins.run (← dispatch slot)) fun f => throw (nameBuiltin slot f)

theorem machine_announce (slot : Nat) (a : Activation) :
    ((announce slot).final a).machine = a.machine := rfl

theorem callBuiltin_apply (slot : Nat) (a : Activation) :
    callBuiltin slot a = runSlot slot ((announce slot).final a) := rfl

/-- A statement that calls a builtin: `b` is the state in which its slot is dispatched. -/
structure Dispatches (s : Int) (a : Activation) (number : Int) (slot : Nat) (b : Activation) :
    Prop where
  exists_call : ∃ c function arguments f,
    fetch s a = .ok (.call function arguments) c ∧
    (c.machine.registers.get function).toInt = number ∧
    c.machine.program.function number = .ok f ∧ f.slot? = some slot ∧
    b = (announce slot).final (c.mapMachine fun m => { m with argumentCount := arguments })
  slot_lt : slot < Limits.builtins

/-- A call of a builtin goes on behind the call when the builtin has run. -/
theorem step_of_dispatches {s number : Int} {a b : Activation} {slot : Nat} (exitDepth : Nat)
    (h : Dispatches s a number slot b) :
    step exitDepth s a = (runSlot slot >>= fun _ => pure (some (s + 1))) b := by
  obtain ⟨c, function, arguments, f, hfetch, hnumber, hf, hslot, rfl⟩ := h.exists_call
  have hlt := h.slot_lt
  rw [step_of_fetch exitDepth hfetch]
  unfold perform
  dsimp only
  rw [bind_apply, word_apply]
  dsimp only
  rw [hnumber, map_eq_pure_bind, bind_apply, bind_apply, callFunction_apply, bind_apply]
  have hlookup : lift (c.machine.program.function number)
      (c.mapMachine fun m => { m with argumentCount := arguments }) = .ok f _ :=
    lift_eq_ok.mpr ⟨hf, rfl⟩
  rw [hlookup]
  dsimp only
  rw [hslot]
  dsimp only
  rw [if_neg (by omega), bind_apply, callBuiltin_apply]
  cases runSlot slot _ <;> rfl

/-- The calls are the statements with an opcode that takes arguments. -/
theorem Instruction.call_of_ofStatement {op : Opcode} {st : Statement} {function arguments : Nat}
    (h : ofStatement op st = .call function arguments) :
    op.arguments? = some arguments ∧ function = st.a.toNat := by
  cases op <;> cases h <;> exact ⟨rfl, rfl⟩

/-- Up to the dispatch only the statement and the number of arguments change. -/
theorem Dispatches.machine_eq {s number : Int} {a b : Activation} {slot : Nat}
    (h : Dispatches s a number slot b) :
    ∃ arguments, b.machine = { a.machine with statement := s, argumentCount := arguments } := by
  obtain ⟨c, function, arguments, f, hfetch, -, -, -, rfl⟩ := h.exists_call
  obtain ⟨-, -, -, -, -, hmachine⟩ := fetch_eq_ok hfetch
  refine ⟨arguments, ?_⟩
  rw [machine_announce]
  show { c.machine with argumentCount := arguments } = _
  rw [hmachine]

/-- **Binding comes to the slot that the interpreter has called.** -/
theorem bindPending_of_dispatches {s number : Int} {a b : Activation} {slot : Nat}
    (h : Dispatches s a number slot b) :
    bindPending b = bindSlot slot (some (b.machine.program.functionName number)) b := by
  obtain ⟨arguments, hb⟩ := h.machine_eq
  obtain ⟨c, function, _, f, hfetch, hnumber, hf, hslot, -⟩ := h.exists_call
  obtain ⟨st, op, hst, hop, hcall, hc⟩ := fetch_eq_ok hfetch
  obtain ⟨harguments, rfl⟩ := Instruction.call_of_ofStatement hcall.symm
  obtain ⟨hfirst, hpos⟩ := Function.slot?_eq_some.mp hslot
  have hlt := h.slot_lt
  -- Neither fetching nor counting the arguments has touched the register of the function.
  have hregister : (b.machine.registers.get st.a.toNat).toInt = number := by
    rw [hb, ← hnumber, hc]
  have hlookup : b.machine.program.function number = .ok f := by
    rw [hb, ← hf, hc]
  have hentry : Program.entry? b.machine.program.statements b.machine.statement = some st := by
    rw [hb]
    exact hst
  rw [bindPending_of_entry hentry (by rw [hop, Option.bind_some, harguments]; rfl), hregister,
    hlookup, bind_apply, lift_eq_ok.mpr ⟨rfl, rfl⟩]
  dsimp only
  have hrange : ¬ (-f.firstStatement.toInt ≤ 0 ||
      (Limits.builtins : Int) ≤ -f.firstStatement.toInt) := by
    simp only [Bool.or_eq_true, decide_eq_true_eq]
    omega
  have hindex : (-f.firstStatement.toInt).toNat = slot := by omega
  rw [if_neg hrange, hindex]

/-- A bound slot is dispatched at once. -/
theorem dispatch_of_bound {slot : Nat} {a : Activation} {p : Primitive}
    (h : a.machine.slot? slot = some p) : dispatch slot a = .ok p a := by
  unfold dispatch
  rw [bind_apply, machine_apply]
  dsimp only
  rw [h]
  rfl

/-- A slot that is not bound yet is bound first. -/
theorem dispatch_of_unbound {slot : Nat} {a : Activation} (h : a.machine.slot? slot = none) :
    dispatch slot a = bindPending a := by
  unfold dispatch
  rw [bind_apply, machine_apply]
  dsimp only
  rw [h]

theorem dispatch_eq_error {slot : Nat} {a b : Activation} {e : Fault}
    (h : dispatch slot a = .error e b) : b.machine = a.machine := by
  cases hslot : a.machine.slot? slot with
  | some p =>
    rw [dispatch_of_bound hslot] at h
    cases h
  | none => exact bindPending_eq_error ((dispatch_of_unbound hslot).symm.trans h)

/-- The body of a builtin, with its faults named. -/
def runPrimitive (slot : Nat) (p : Primitive) : Action Unit :=
  tryCatch (Builtins.run p) fun f => throw (nameBuiltin slot f)

theorem runSlot_of_ok {slot : Nat} {a b : Activation} {p : Primitive}
    (h : dispatch slot a = .ok p b) : runSlot slot a = runPrimitive slot p b := by
  show EStateM.tryCatch _ _ a = EStateM.tryCatch _ _ b
  unfold EStateM.tryCatch
  rw [bind_apply, h]

/-- A dispatch that fails names the builtin. -/
theorem runSlot_of_error {slot : Nat} {a b : Activation} {e : Fault}
    (h : dispatch slot a = .error e b) : runSlot slot a = .error (nameBuiltin slot e) b := by
  show EStateM.tryCatch _ _ a = _
  unfold EStateM.tryCatch
  rw [bind_apply, h]
  rfl

/-! ## The slots of a program -/

/-- What the slots of a program hold in a state, and what becomes of them. -/
structure SlotsLinked (a : Activation) : Prop where
  resolve_of_slot : ∀ s p, a.machine.slot? s = some p →
    Primitive.resolve? s a.machine.role = some p
  isSome_of_base : ∀ s, s < Limits.baseBuiltins →
    ((a.machine.slot? s).isSome ↔ (Primitive.resolve? s a.machine.role).isSome)
  extensions_of_slot : ∀ s, Limits.baseBuiltins ≤ s → (a.machine.slot? s).isSome →
    a.machine.extensions = true
  slot_of_later : ∀ b, Later a b → ∀ s p, a.machine.slot? s = some p → b.machine.slot? s = some p
  slots_of_bindSlot : ∀ slot name? e b, bindSlot slot name? a = .error e b →
    b.machine.slots = a.machine.slots
  slots_of_bindPending : ∀ e b, bindPending a = .error e b → b.machine.slots = a.machine.slots
  /-- A call whose slot cannot be bound ends in a fault and leaves the slots as they were. -/
  slots_of_call : ∀ s number slot b exitDepth e c, Dispatches s a number slot b →
    dispatch slot b = .error e c →
    step exitDepth s a = .error (nameBuiltin slot e) c ∧ c.machine.slots = a.machine.slots
  /-- A call of a slot that holds nothing binds that slot and no other. -/
  bind_of_call : ∀ s number slot b, Dispatches s a number slot b → a.machine.slot? slot = none →
    dispatch slot b = bindPending b ∧
    bindPending b = bindSlot slot (some (b.machine.program.functionName number)) b

/-- **A slot holds what it stands for, once it is bound, and for good.** That is so in every state that
a loaded program comes to, inside of runs and between them, whether what happened before succeeded or
not. -/
theorem slots_linked {a : Activation} (ha : Reached a) : SlotsLinked a where
  resolve_of_slot _ _ h := ha.linked.resolve_of_slot h
  isSome_of_base s hs := by rw [ha.linked.slot_of_base hs]
  extensions_of_slot s hs h := by
    obtain ⟨p, hp⟩ := Option.isSome_iff_exists.mp h
    exact ha.linked.extensions_of_slot hs hp
  slot_of_later b hb s p hp := hb.relinks.slot_eq ha.linked hp
  slots_of_bindSlot slot name? e b h := by rw [bindSlot_eq_error h]
  slots_of_bindPending e b h := by rw [bindPending_eq_error h]
  slots_of_call s number slot b exitDepth e c h he := by
    obtain ⟨arguments, hb⟩ := h.machine_eq
    constructor
    · rw [step_of_dispatches exitDepth h, bind_apply, runSlot_of_error he]
    · rw [dispatch_eq_error he, hb]
  bind_of_call s number slot b h hnone := by
    obtain ⟨arguments, hb⟩ := h.machine_eq
    have hslot : b.machine.slot? slot = none := by
      rw [hb]
      exact hnone
    exact ⟨dispatch_of_unbound hslot, bindPending_of_dispatches h⟩

/-- A program whose second function calls the first one, which is the builtin for the length of a
string. -/
def measuring : Program where
  statements := #[{}, { op := Opcode.call1.number, a := 28 }, {}]
  functions := #[{}, { firstStatement := -114 }, { firstStatement := 1 }]
  globals := Array.replicate 28 0 ++ #[1]

/-- The measuring program, loaded. -/
def measuringLoaded : Activation := .load .client measuring (.new "game" .empty)

theorem slots_linked_measuring :
    (∃ b, Dispatches 1 measuringLoaded 1 114 b ∧ measuringLoaded.machine.slot? 114 = none ∧
      bindPending b = bindSlot 114 (some (b.machine.program.functionName 1)) b) ∧
    ∃ b, bindSlot 114 none measuringLoaded = .ok .strlen b ∧
      ∀ c, Later b c → c.machine.slot? 114 = some .strlen := by
  have ha : Reached measuringLoaded := ⟨_, _, _, .refl⟩
  constructor
  · have hslot : measuringLoaded.machine.slot? 114 = none := by
      rw [measuringLoaded, (sameLinkage_load _ _ _).slot?_eq, Machine.slot?_new, if_neg (by decide)]
    have hcall : Dispatches 1 measuringLoaded 1 114 _ :=
      ⟨⟨_, 28, 1, { firstStatement := -114 }, rfl, rfl, rfl, rfl, rfl⟩, by decide⟩
    exact ⟨_, hcall, hslot, ((slots_linked ha).bind_of_call _ _ _ _ hcall hslot).2⟩
  · obtain ⟨b, hb, hmachine⟩ := bindSlot_of_resolve (a := measuringLoaded) none
      (show measuringLoaded.machine.allows 114 = true by decide +kernel)
      (show Primitive.resolve? 114 measuringLoaded.machine.role = some .strlen by decide +kernel)
    have hreached : Reached b := by
      have hnext := Happens.bindSlot measuringLoaded 114 none
      rw [final, hb] at hnext
      exact ⟨_, _, _, .single hnext⟩
    have hslot : b.machine.slot? 114 = some .strlen := by
      rw [hmachine]
      exact Machine.slot?_bind_self _ _ (by rw [ha.linked.size_slots]; decide)
    exact ⟨b, hb, fun c hc => (slots_linked hreached).slot_of_later c hc 114 _ hslot⟩

end QuakeVm
