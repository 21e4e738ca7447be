import QuakeVm.Proofs.IndifferentBuiltins

/-!
# Binding late

When a slot is bound makes no difference to a program. Two machines that are the same but for their
slots, where every slot that is bound holds what it stands for, execute a function in the same way:
with the same result or the same fault, traceback included. They end up the same again, but for
their slots and what their logs say.

A call finds its builtin in the slot in one machine and binds it in the other. Both come to the same
(`settle`), so a whole run does by induction.
-/

namespace QuakeVm

open QuakeVm.Action Activation

/-- All may be the same but slots and logs. -/
def lazily : Tolerance := ⟨none, True, none⟩

instance : lazily.AllPassed := ⟨rfl⟩

/-! ## Finding the builtin of a slot -/

/-- Binding slots to what they stand for keeps them sound. -/
theorem Machine.Relinks.sound {m m' : Machine} (h : m.Relinks m') (hm : m.Sound) : m'.Sound where
  size_eq := h.size_eq.trans hm.size_eq
  resolve_eq {s p} hp := by
    rw [h.role_eq]
    rcases h.slot s with hsame | ⟨-, q, hq, hslot⟩
    · exact hm.resolve_eq (hsame.symm.trans hp)
    · exact hq.trans (hslot.symm.trans hp)
  allowed {s p} hp := by
    rw [h.extensions_eq]
    rcases h.slot s with hsame | ⟨hallowed, -⟩
    · exact hm.allowed (hsame.symm.trans hp)
    · exact Machine.allows_iff.mp hallowed

theorem Machine.Sound.bind {m : Machine} (hm : m.Sound) {slot : Nat} {p : Primitive}
    (hp : m.Provides slot p) : (m.bind slot p).Sound :=
  (Machine.relinks_bind hp.1 hp.2).sound hm

/-- What a slot holds; a slot that holds nothing is bound, for a function of a name. -/
def settle (slot : Nat) (name? : Option String) : Action Primitive := do
  match (← machine).slot? slot with
  | some p => return p
  | none => bindSlot slot name?

theorem settle_of_bound {slot : Nat} {a : Activation} {p : Primitive} (name? : Option String)
    (h : a.machine.slot? slot = some p) : settle slot name? a = .ok p a := by
  unfold settle
  rw [bind_apply, machine_apply]
  dsimp only
  rw [h]
  rfl

theorem settle_of_unbound {slot : Nat} {a : Activation} (name? : Option String)
    (h : a.machine.slot? slot = none) : settle slot name? a = bindSlot slot name? a := by
  unfold settle
  rw [bind_apply, machine_apply]
  dsimp only
  rw [h]

/-- What a machine provides is found, and nothing changes but its slots and the log. -/
theorem settle_of_provides {slot : Nat} {a : Activation} {p : Primitive} (name? : Option String)
    (hsound : a.machine.Sound) (hp : a.machine.Provides slot p) :
    ∃ slots w, settle slot name? a = .ok p ⟨{ a.machine with slots }, w⟩ ∧
      SoundSlots a.machine.role a.machine.extensions slots ∧ a.world.SameButLog w := by
  cases hslot : a.machine.slot? slot with
  | some q =>
    obtain rfl : q = p := Option.some.inj ((hsound.provides_of_slot hslot).2.symm.trans hp.2)
    exact ⟨_, _, settle_of_bound name? hslot, hsound, a.world.log, rfl, rfl⟩
  | none =>
    obtain ⟨w, hbind, hworld⟩ := bindSlot_eq_ok name? hp.1 hp.2
    exact ⟨_, w, (settle_of_unbound name? hslot).trans hbind, hsound.bind hp, hworld⟩

theorem settle_of_missing {slot : Nat} {a : Activation} (name? : Option String)
    (hsound : a.machine.Sound) (hnone : ∀ p, ¬ a.machine.Provides slot p) :
    ∃ w, settle slot name? a = .error (missing slot name?) { a with world := w } ∧
      a.world.SameButLog w := by
  have hslot : a.machine.slot? slot = none :=
    Option.eq_none_iff_forall_ne_some.mpr fun p hp => hnone p (hsound.provides_of_slot hp)
  obtain ⟨w, hbind, hworld⟩ := bindSlot_eq_missing name? (Machine.resolve_eq_none hnone)
  exact ⟨w, (settle_of_unbound name? hslot).trans hbind, hworld⟩

/-- Finding a builtin makes no difference between a slot that is bound and one that is not. -/
instance (slot : Nat) (name? : Option String) : Indifferent lazily (settle slot name?) where
  agree := by
    rintro a _ ⟨own, hallows, rfl⟩
    have hsound : a.machine.Sound := hallows.sound trivial
    have hown : (a.vary own).machine.Sound := hallows.own_sound trivial
    -- What a machine provides depends on its role and its extensions, which are the same in both.
    by_cases h : ∃ p, a.machine.Provides slot p
    · obtain ⟨p, hp⟩ := h
      obtain ⟨slots, w, hr, hslots, log, hlog, rfl⟩ := settle_of_provides name? hsound hp
      obtain ⟨slots', w', hs, hslots', log', hlog', rfl⟩ :=
        settle_of_provides (p := p) name? hown hp
      rw [hr, hs]
      refine .ok p ⟨⟨own.registers, slots', log', own.limit⟩, ?_, rfl⟩
      exact { hallows with
        slots_eq := fun hb => absurd trivial hb
        sound := fun _ => hslots
        own_sound := fun _ => hslots'
        log_eq := fun hb => absurd trivial hb
        threshold_eq := (hlog'.trans hallows.threshold_eq).trans hlog.symm }
    · have hnone := not_exists.mp h
      obtain ⟨w, hr, log, hlog, rfl⟩ := settle_of_missing name? hsound hnone
      obtain ⟨w', hs, log', hlog', rfl⟩ := settle_of_missing name? hown hnone
      rw [hr, hs]
      refine .error _ ⟨{ own with log := log' }, ?_, rfl⟩
      exact { hallows with
        log_eq := fun hb => absurd trivial hb
        threshold_eq := (hlog'.trans hallows.threshold_eq).trans hlog.symm }

/-! ## Statements that call nothing -/

section Statements

variable {t : Tolerance}

instance (index : Int) : Indifferent t (fetch index) := by
  unfold fetch
  refine .machine (fun _ _ => rfl) fun m => ?_
  dsimp only
  split
  · infer_instance
  · refine .bind (.modifyMachine (fun _ _ => rfl) fun _ => ⟨rfl, rfl, rfl, rfl, rfl, fun _ => rfl⟩)
      fun _ => ?_
    split
    · infer_instance
    · exact .machine (fun _ _ => rfl) fun m => inferInstance

instance (entities : Entities) : Indifferent t (setEntities entities) :=
  .modifyMachine (fun _ _ => rfl) fun _ => ⟨rfl, rfl, rfl, rfl, rfl, fun _ => rfl⟩

instance (h : Int) : Indifferent t (isEmptyText h) := by
  unfold isEmptyText
  infer_instance

variable [ht : t.AllPassed]

instance (pointer target n : Nat) : Indifferent t (loadWords pointer target n) := by
  induction n generalizing pointer target with
  | zero => unfold loadWords; infer_instance
  | succ n ih =>
    unfold loadWords
    exact .machine (fun _ _ => rfl) fun m => inferInstance

instance (source pointer n : Nat) : Indifferent t (storeWords source pointer n) := by
  induction n generalizing source pointer with
  | zero => unfold storeWords; infer_instance
  | succ n ih =>
    unfold storeWords
    exact .bind inferInstance fun w => .machine (fun _ _ => rfl) fun m => inferInstance

instance (entity field : Nat) : Indifferent t (fieldPointer entity field) := by
  unfold fieldPointer
  exact .bind inferInstance fun e => .bind inferInstance fun f =>
    .machine (fun _ _ => rfl) fun m => inferInstance

instance (entity field : Int) (w : Int32) : Indifferent t (setField entity field w) := by
  unfold setField
  exact .machine (fun _ _ => rfl) fun m => inferInstance

instance (frame think : Nat) : Indifferent t (setState frame think) := by
  unfold setState
  refine .bind inferInstance fun entity => .machine (fun _ _ => rfl) fun m => ?_
  split <;> infer_instance

/-- A switch of the machine to another function has nothing to do with what builtins it provides, or
with its limit. -/
def SwitchesFunction (f : Machine → Except Cause (Int × Machine)) : Prop :=
  ∀ m role extensions slots limit, f { m with role, extensions, slots, limit } =
    (f m).map fun r => (r.1, { r.2 with role, extensions, slots, limit })

theorem SwitchesFunction.keeps {f : Machine → Except Cause (Int × Machine)}
    (h : SwitchesFunction f) {m m' : Machine} {s : Int} (hm : f m = .ok (s, m')) :
    m.SameLinkage m' ∧ m'.limit = m.limit := by
  -- With what the machine has already, the equation says that the switch keeps it.
  have hself : f m = _ := h m m.role m.extensions m.slots m.limit
  rw [hm] at hself
  obtain ⟨-, hm'⟩ := Prod.mk.inj (Except.ok.inj hself)
  rw [hm']
  exact ⟨⟨rfl, rfl, rfl⟩, rfl⟩

theorem switchesFunction_enter (number resume : Int) :
    SwitchesFunction (·.enter number resume) := by
  intro m role extensions slots limit
  unfold Machine.enter
  dsimp only
  cases m.program.function number with
  | error c => rfl
  | ok f =>
    dsimp only
    split
    · rfl
    · split <;> rfl

theorem switchesFunction_leave : SwitchesFunction Machine.leave := by
  intro m role extensions slots limit
  unfold Machine.leave
  dsimp only
  cases m.program.function m.function with
  | error c => rfl
  | ok f =>
    dsimp only
    split
    · rfl
    · cases m.calls <;> rfl

theorem indifferent_switchMachine {f : Machine → Except Cause (Int × Machine)}
    (h : SwitchesFunction f) : Indifferent t (switchMachine f) where
  agree := by
    rintro a _ ⟨own, hallows, rfl⟩
    have hvary : f (a.vary own).machine = (f a.machine).map fun r =>
        (r.1, { r.2 with
          role := a.machine.role, extensions := a.machine.extensions, slots := own.slots,
          limit := own.limit }) := by
      rw [← h]
      show f (a.machine.vary own) = _
      unfold Machine.vary
      rw [hallows.registers_eq]
    unfold switchMachine
    rw [bind_apply, bind_apply, machine_apply, machine_apply]
    dsimp only
    rw [hvary]
    cases hm : f a.machine with
    | error c => exact .error _ ⟨own, hallows, rfl⟩
    | ok r =>
      obtain ⟨s, m⟩ := r
      obtain ⟨⟨hrole, hextensions, hslots⟩, hlimit⟩ := h.keeps hm
      refine .ok s ⟨{ own with registers := m.registers }, ?_, ?_⟩
      · exact {
          registers := .refl _ _
          count_eq := fun n hn => absurd (ht.passed?_eq.symm.trans hn) nofun
          slots_eq := fun hb => (hallows.slots_eq hb).trans hslots.symm
          sound := fun hb => by
            show SoundSlots m.role m.extensions m.slots
            rw [hrole, hextensions, hslots]
            exact hallows.sound hb
          own_sound := fun hb => by
            show SoundSlots m.role m.extensions own.slots
            rw [hrole, hextensions]
            exact hallows.own_sound hb
          log_eq := hallows.log_eq
          threshold_eq := hallows.threshold_eq
          limit_eq := by
            show own.limit = t.limit?.getD m.limit
            rw [hlimit]
            exact hallows.limit_eq }
      · rw [← hrole, ← hextensions]
        rfl

instance (number resume : Int) : Indifferent t (enterFunction number resume) :=
  indifferent_switchMachine (switchesFunction_enter number resume)

instance : Indifferent t leaveFunction := indifferent_switchMachine switchesFunction_leave

/-- Instructions other than calls. -/
theorem indifferent_perform (exitDepth : Nat) (next : Int) {i : Instruction}
    (hi : ∀ function arguments, i ≠ .call function arguments) :
    Indifferent t (perform exitDepth next i) := by
  cases i with
  | call function arguments => exact absurd rfl (hi function arguments)
  | address entity field target =>
    unfold perform
    exact .bind inferInstance fun w => .machine (fun _ _ => rfl) fun m => inferInstance
  | jump condition distance =>
    unfold perform
    refine .of_machine (fun a own hallows => ?_) fun m => inferInstance
    show (if condition own.registers then _ else _) = _
    rw [hallows.registers_eq]
  | leave value =>
    have hleave : Indifferent t (do
        let s ← leaveFunction
        if (← machine).depth == exitDepth then return none else return some s) :=
      .bind inferInstance fun s => .machine (fun _ _ => rfl) fun m => inferInstance
    unfold perform
    cases value with
    | none => exact hleave
    | some a => exact .bind inferInstance fun _ => hleave
  | _ =>
    unfold perform
    infer_instance

end Statements

/-! ## Calls -/

/-- Run the builtin of a slot, which is bound for a function of a name if it has to be. -/
def runSettled (slot : Nat) (name? : Option String) : Action Unit :=
  tryCatch (do Builtins.run (← settle slot name?)) fun f => throw (nameBuiltin slot f)

instance (slot : Nat) (name? : Option String) : Indifferent lazily (runSettled slot name?) := by
  have hrun := Builtins.indifferent_run_allPassed (t := lazily)
  unfold runSettled
  infer_instance

theorem runSlot_eq_runSettled {slot : Nat} {name? : Option String} {a : Activation}
    (h : dispatch slot a = settle slot name? a) : runSlot slot a = runSettled slot name? a := by
  have hrun :
      (do Builtins.run (← dispatch slot)) a = (do Builtins.run (← settle slot name?)) a := by
    rw [bind_apply, bind_apply, h]
  show EStateM.tryCatch _ _ a = EStateM.tryCatch _ _ a
  unfold EStateM.tryCatch
  rw [hrun]

theorem dispatch_eq_settle {slot : Nat} {name? : Option String} {a : Activation}
    (h : a.machine.slot? slot = none → bindPending a = bindSlot slot name? a) :
    dispatch slot a = settle slot name? a := by
  cases hslot : a.machine.slot? slot with
  | some p => rw [dispatch_of_bound hslot, settle_of_bound name? hslot]
  | none => rw [dispatch_of_unbound hslot, settle_of_unbound name? hslot, h hslot]

instance (slot : Nat) {t : Tolerance} : Indifferent t (announce slot) := by
  unfold announce
  exact .machine (fun _ _ => rfl) fun m => inferInstance

theorem announce_bind {α : Type} (slot : Nat) (x : Action α) (a : Activation) :
    (announce slot >>= fun _ => x) a = x ((announce slot).final a) := rfl

instance (n : Nat) {t : Tolerance} [ht : t.AllPassed] :
    Indifferent t (modifyMachine fun m => { m with argumentCount := n }) :=
  .modifyMachine (fun _ _ => rfl) fun _ =>
    ⟨rfl, rfl, rfl, rfl, rfl, fun h => absurd ht.passed?_eq h⟩

/-- A call that does not look at the current statement to bind a slot. -/
def callSettled (number : Int) (arguments : Nat) (next : Int) : Action Int := do
  modifyMachine fun m => { m with argumentCount := arguments }
  let m ← machine
  let f ← lift (m.program.function number)
  match f.slot? with
  | some slot =>
    if Limits.builtins ≤ slot then fail (.badBuiltinNumber slot)
    announce slot
    runSettled slot (some (m.program.functionName number))
    return next
  | none => enterFunction number next

instance (number next : Int) (arguments : Nat) :
    Indifferent lazily (callSettled number arguments next) := by
  unfold callSettled
  refine .bind inferInstance fun _ => .machine (fun _ _ => rfl) fun m => ?_
  refine .bind inferInstance fun f => ?_
  split <;> infer_instance

theorem callSettled_apply (number next : Int) (arguments : Nat) (a : Activation) :
    callSettled number arguments next a =
      (lift (a.machine.program.function number) >>= fun f =>
        match f.slot? with
        | some slot => do
          if Limits.builtins ≤ slot then fail (.badBuiltinNumber slot)
          announce slot
          runSettled slot (some (a.machine.program.functionName number))
          return next
        | none => enterFunction number next)
      (a.mapMachine fun m => { m with argumentCount := arguments }) := by
  unfold callSettled
  rw [bind_apply, modifyMachine_apply]
  rfl

/-- The statement that a call looks at to bind a slot is the one that calls. -/
theorem callFunction_eq_callSettled {s next : Int} {a b : Activation} {function arguments : Nat}
    (hfetch : fetch s a = .ok (.call function arguments) b) :
    callFunction (b.machine.registers.get function).toInt arguments next b =
      callSettled (b.machine.registers.get function).toInt arguments next b := by
  rw [callFunction_apply, callSettled_apply]
  cases hf : b.machine.program.function (b.machine.registers.get function).toInt with
  | error c => rfl
  | ok f =>
    rw [bind_apply, bind_apply, lift_eq_ok.mpr ⟨rfl, rfl⟩]
    dsimp only
    cases hslot : f.slot? with
    | none => rfl
    | some slot =>
      dsimp only
      by_cases hle : Limits.builtins ≤ slot
      · rw [if_pos hle, if_pos hle]
        rfl
      · have hdispatches : Dispatches s a _ slot _ :=
          ⟨⟨b, function, arguments, f, hfetch, rfl, hf, hslot, rfl⟩, Nat.not_le.mp hle⟩
        have hrun := runSlot_eq_runSettled
          (dispatch_eq_settle fun _ => bindPending_of_dispatches hdispatches)
        rw [if_neg hle, if_neg hle, bind_apply, announce_bind, bind_apply, callBuiltin_apply, hrun]
        rfl

theorem perform_call (exitDepth : Nat) (next : Int) {s : Int} {a b : Activation}
    {function arguments : Nat} (hfetch : fetch s a = .ok (.call function arguments) b) :
    perform exitDepth next (.call function arguments) b =
      (do some <$> callSettled (← word function).toInt arguments next) b := by
  unfold perform
  dsimp only
  rw [bind_apply, bind_apply, word_apply]
  dsimp only
  rw [map_eq_pure_bind, map_eq_pure_bind, bind_apply, bind_apply,
    callFunction_eq_callSettled hfetch]

/-- **A step makes no difference between slots that are bound and slots that are not.** -/
instance (exitDepth : Nat) (s : Int) : Indifferent lazily (step exitDepth s) where
  agree {a b} h := by
    have hfetched : Agree (Similar lazily) (fetch s a) (fetch s b) := Indifferent.agree h
    -- A call binds by looking at the statement that was fetched, so the rule for sequences, which
    -- forgets it, does not apply.
    unfold step
    rw [bind_apply, bind_apply]
    generalize ha : fetch s a = r at hfetched
    generalize hb : fetch s b = r' at hfetched
    cases hfetched with
    | error e h => exact .error e h
    | @ok i c d h =>
      show Agree (Similar lazily) (perform exitDepth (s + 1) i c) (perform exitDepth (s + 1) i d)
      by_cases hcall : ∃ function arguments, i = .call function arguments
      · obtain ⟨function, arguments, rfl⟩ := hcall
        rw [perform_call exitDepth (s + 1) ha, perform_call exitDepth (s + 1) hb]
        exact Indifferent.agree h
      · refine (indifferent_perform exitDepth (s + 1) fun function arguments hi => ?_).agree h
        exact hcall ⟨function, arguments, hi⟩

instance (exitDepth n : Nat) (s : Int) : Indifferent lazily (runFrom exitDepth n s) := by
  induction n generalizing s with
  | zero =>
    unfold runFrom
    refine .of_machine (fun a own hallows => ?_) fun m => inferInstance
    show fail (.runaway own.limit) = _
    rw [hallows.limit_eq]
    rfl
  | succ n ih =>
    unfold runFrom
    refine .bind inferInstance fun next? => ?_
    cases next? <;> infer_instance

instance (number : Int) : Indifferent lazily (runFunction number) := by
  unfold runFunction
  refine .machine (fun _ _ => rfl) fun m => .bind inferInstance fun s =>
    .of_machine (fun a own hallows => ?_) fun m => inferInstance
  show runFrom _ (own.limit - 1) s = _
  rw [hallows.limit_eq]
  rfl

instance (f : Fault) : Indifferent lazily (unwind f) := by
  have hreset : Indifferent lazily (modifyMachine (·.reset)) :=
    .modifyMachine (fun _ _ => rfl) fun _ => ⟨rfl, rfl, rfl, rfl, rfl, fun h => absurd rfl h⟩
  unfold unwind
  exact .machine (fun _ _ => rfl) fun m => inferInstance

/-! ## Execution -/

/-- Execute a builtin without a look at the current statement. -/
def executeSettled (f : Function) (slot : Nat) : Action Unit := do
  if Limits.builtins ≤ slot then fail (.badBuiltinNumber slot)
  modifyMachine fun m => { m with argumentCount := f.parameterCount }
  let _ ← settle slot none
  announce slot
  runSettled slot none

instance (f : Function) (slot : Nat) : Indifferent lazily (executeSettled f slot) := by
  unfold executeSettled
  infer_instance

theorem executeSettled_apply {f : Function} {slot : Nat} (hlt : slot < Limits.builtins)
    (a : Activation) :
    executeSettled f slot a = (settle slot none >>= fun _ => announce slot >>= fun _ =>
      runSettled slot none)
        (a.mapMachine fun m => { m with argumentCount := f.parameterCount }) := by
  unfold executeSettled
  rw [if_neg (Nat.not_le.mpr hlt)]
  rfl

/-- A builtin that is executed has been bound by the time it is dispatched. -/
theorem executeBuiltin_eq_executeSettled {f : Function} {slot : Nat} {a : Activation}
    (hsound : a.machine.Sound) : executeBuiltin a.machine f slot a = executeSettled f slot a := by
  rcases Nat.lt_or_ge slot Limits.builtins with hlt | hle
  · rw [executeBuiltin_apply _ hlt, executeSettled_apply hlt, bind_apply]
    cases hslot : a.machine.slot? slot with
    | some p =>
      have hslot' : (a.mapMachine fun m =>
          { m with argumentCount := f.parameterCount }).machine.slot? slot = some p := hslot
      rw [prepareBuiltin_of_bound hslot, bind_apply, settle_of_bound none hslot']
      refine runSlot_eq_runSettled (dispatch_eq_settle fun hnone => ?_)
      exact absurd (hslot.symm.trans hnone) nofun
    | none =>
      have hslot' : (a.mapMachine fun m =>
          { m with argumentCount := f.parameterCount }).machine.slot? slot = none := hslot
      rw [prepareBuiltin_of_unbound hslot, bind_apply, bind_apply, settle_of_unbound none hslot']
      rcases bindSlot_cases slot none (a.mapMachine fun m =>
          { m with argumentCount := f.parameterCount }) with
        ⟨p, c, -, -, hbind, hmachine⟩ | ⟨c, -, hbind, -⟩
      · -- The slot has just been bound, so the second look finds it and binds nothing.
        rw [hbind]
        refine runSlot_eq_runSettled (dispatch_eq_settle fun hnone => ?_)
        have hbound : c.machine.slot? slot = some p := by
          rw [hmachine]
          exact Machine.slot?_bind_self _ p (Nat.lt_of_lt_of_eq hlt hsound.size_eq.symm)
        exact absurd (hbound.symm.trans hnone) nofun
      · rw [hbind]
  · unfold executeBuiltin executeSettled
    rw [if_pos hle, if_pos hle]
    rfl

instance (number : Int) : Indifferent lazily (execute number) where
  agree := by
    rintro a _ ⟨own, hallows, rfl⟩
    rw [execute_apply, execute_apply]
    show Agree _ _ ((lift (a.machine.program.function number) >>= _) _)
    cases a.machine.program.function number with
    | error c => exact .error _ ⟨own, hallows, rfl⟩
    | ok f =>
      rw [bind_apply, bind_apply, lift_eq_ok.mpr ⟨rfl, rfl⟩, lift_eq_ok.mpr ⟨rfl, rfl⟩]
      dsimp only
      cases f.slot? with
      | none => exact Indifferent.agree ⟨own, hallows, rfl⟩
      | some slot =>
        dsimp only
        rw [executeBuiltin_eq_executeSettled (hallows.sound trivial),
          executeBuiltin_eq_executeSettled (a := a.vary own) (hallows.own_sound trivial)]
        exact Indifferent.agree ⟨own, hallows, rfl⟩

/-- Two activations are the same but for slots and logs: every slot that is bound in one of them holds
what it stands for, and the logs keep records of the same levels. -/
structure SameButBinding (a b : Activation) : Prop where
  sound : a.machine.Sound
  sound' : b.machine.Sound
  machine_eq : b.machine = { a.machine with slots := b.machine.slots }
  world_eq : a.world.SameButLog b.world

theorem similar_lazily_iff {a b : Activation} : Similar lazily a b ↔ SameButBinding a b := by
  constructor
  · rintro ⟨own, hallows, rfl⟩
    refine ⟨hallows.sound trivial, hallows.own_sound trivial, ?_, own.log,
      hallows.threshold_eq, rfl⟩
    show a.machine.vary own = { a.machine with slots := own.slots }
    unfold Machine.vary
    rw [hallows.registers_eq, hallows.limit_eq]
    rfl
  · rintro ⟨hsound, hsound', hmachine, log, hthreshold, hworld⟩
    refine ⟨⟨a.machine.registers, b.machine.slots, log, a.machine.limit⟩, ?_, ?_⟩
    · exact {
        registers := .refl _ _
        count_eq := nofun
        slots_eq := fun hb => absurd trivial hb
        sound := fun _ => hsound
        own_sound := fun _ => by
          rw [hmachine] at hsound'
          exact hsound'
        log_eq := fun hb => absurd trivial hb
        threshold_eq := hthreshold
        limit_eq := rfl }
    · show (⟨b.machine, b.world⟩ : Activation) = _
      rw [hmachine, hworld]
      rfl

/-- **Binding late cannot be observed.** Whether slots have been bound before or not, a function is
executed in the same way: with the same result or the same fault, its builtin, statement and traceback
included. What changes is the same but for slots, which are sound again, and logs. -/
theorem late_binding_transparent {a b : Activation} (h : SameButBinding a b) (number : Int) :
    Agree SameButBinding (execute number a) (execute number b) :=
  Agree.mono (Indifferent.agree (similar_lazily_iff.mpr h)) similar_lazily_iff.mp

theorem sameButBinding_bind {a : Activation} (h : a.machine.Sound) {slot : Nat} {p : Primitive}
    (hp : a.machine.Provides slot p) : SameButBinding a (a.mapMachine (·.bind slot p)) :=
  ⟨h, h.bind hp, rfl, a.world.log, rfl, rfl⟩

/-- The measuring program has not bound the builtin that it calls. It runs as if it had. -/
theorem late_binding_transparent_measuring :
    measuringLoaded.machine.slot? 114 = none ∧
      SameButBinding measuringLoaded (measuringLoaded.mapMachine (·.bind 114 .strlen)) ∧
      Agree SameButBinding (execute 2 measuringLoaded)
        (execute 2 (measuringLoaded.mapMachine (·.bind 114 .strlen))) := by
  have hslot : measuringLoaded.machine.slot? 114 = none := by
    rw [measuringLoaded, (sameLinkage_load _ _ _).slot?_eq, Machine.slot?_new, if_neg (by decide)]
  have hsound : measuringLoaded.machine.Sound := (linked_load _ _ _).sound
  have hprovides : measuringLoaded.machine.Provides 114 .strlen :=
    ⟨by decide +kernel, by decide +kernel⟩
  have hsame := sameButBinding_bind hsound hprovides
  exact ⟨hslot, hsame, late_binding_transparent hsame 2⟩

end QuakeVm
