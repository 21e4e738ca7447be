import QuakeVm.Proofs.Usable

/-!
# Actions that do not look

Two activations are similar if they are the same but for some things that are tolerated: words of
parameters that were not passed, slots that one machine has bound and the other has not, with what the
log says about it, and the number of statements at which a run is stopped. An action is indifferent if
from similar activations it ends in the same way, with the same result or the same fault, and the
activations are similar again.

The second activation is written as the first one with things of its own put in (`Activation.vary`).
So what an action reads is the same in both by computation, and only what it reads of the things that
are tolerated takes an argument.

## How an action is shown to be indifferent

`Indifferent` is a class like `Confined`. The rules for reading the machine and the world ask for a
proof that the parts that may differ are not looked at, which is `rfl` wherever that is so.
-/

namespace QuakeVm

open QuakeVm.Action Activation

/-! ## Registers -/

namespace Registers

/-- Two lists of registers have the same words outside of some. -/
structure SameBut (stale : Nat → Prop) (r r' : Registers) : Prop where
  size_eq : r'.size = r.size
  get_eq : ∀ i, ¬ stale i → r'.get i = r.get i

variable {stale : Nat → Prop} {r r' : Registers}

theorem SameBut.refl (stale : Nat → Prop) (r : Registers) : r.SameBut stale r :=
  ⟨rfl, fun _ _ => rfl⟩

theorem SameBut.set (h : r.SameBut stale r') (i : Nat) (w : Int32) :
    (r.set i w).SameBut stale (r'.set i w) where
  size_eq := by rw [size_set, size_set, h.size_eq]
  get_eq j hj := by
    by_cases hij : i = j
    · subst hij
      rcases Nat.lt_or_ge i r.size with hi | hi
      · rw [get_set_self r w hi, get_set_self r' w (h.size_eq ▸ hi)]
      · rw [get_of_size_le _ (by rw [size_set, h.size_eq]; exact hi),
          get_of_size_le _ (by rw [size_set]; exact hi)]
    · rw [get_set_ne r w hij, get_set_ne r' w hij, h.get_eq j hj]

theorem SameBut.setFloat (h : r.SameBut stale r') (i : Nat) (v : Float32) :
    (r.setFloat i v).SameBut stale (r'.setFloat i v) := h.set i _

theorem SameBut.setVector (h : r.SameBut stale r') (i : Nat) (v : Vec3) :
    (r.setVector i v).SameBut stale (r'.setVector i v) :=
  ((h.setFloat i v.x).setFloat (i + 1) v.y).setFloat (i + 2) v.z

theorem SameBut.float_eq (h : r.SameBut stale r') {i : Nat} (hi : ¬ stale i) :
    r'.float i = r.float i := by
  rw [float, float, h.get_eq i hi]

theorem SameBut.vector_eq (h : r.SameBut stale r') {i : Nat} (hi : ∀ j, j < 3 → ¬ stale (i + j)) :
    r'.vector i = r.vector i := by
  have hx : r'.float i = r.float i := h.float_eq (hi 0 (by omega))
  rw [vector, vector, hx, h.float_eq (hi 1 (by omega)), h.float_eq (hi 2 (by omega))]

/-- Without any exception, registers that are the same are equal. -/
theorem SameBut.eq (h : r.SameBut stale r') (hnone : ∀ i, ¬ stale i) : r' = r := by
  obtain ⟨words⟩ := r
  obtain ⟨words'⟩ := r'
  have hsize : words'.size = words.size := h.size_eq
  congr 1
  refine Array.ext hsize fun i hi' hi => ?_
  have hget := h.get_eq i (hnone i)
  simpa [get, Array.getD_eq_getD_getElem?, hi, hi'] using hget

end Registers

/-! ## Similar activations -/

/-- What two activations may differ in. -/
structure Tolerance where
  /-- The number of arguments, if the parameters from there on may differ. -/
  passed? : Option Nat
  /-- Whether slots may be bound in one and not in the other, and the log may tell so. -/
  binding : Prop
  /-- The limit of the second machine, if it has one of its own. -/
  limit? : Option Nat

/-- What an activation has in place of what another one has. -/
structure Own where
  registers : Registers
  slots : Array (Option Primitive)
  log : Log
  limit : Nat

def Machine.vary (m : Machine) (own : Own) : Machine :=
  { m with registers := own.registers, slots := own.slots, limit := own.limit }

def World.vary (w : World) (own : Own) : World := { w with log := own.log }

def Activation.vary (a : Activation) (own : Own) : Activation :=
  ⟨a.machine.vary own, a.world.vary own⟩

namespace Tolerance

/-- A register of a parameter that was not passed. -/
def stale (t : Tolerance) (i : Nat) : Prop :=
  ∃ n, t.passed? = some n ∧ parameter n ≤ i ∧ i < reservedRegisters

/-- What may stand in place of what an activation has. -/
structure Allows (t : Tolerance) (a : Activation) (own : Own) : Prop where
  registers : a.machine.registers.SameBut t.stale own.registers
  count_eq : ∀ n, t.passed? = some n → a.machine.argumentCount = n
  slots_eq : ¬ t.binding → own.slots = a.machine.slots
  sound : t.binding → SoundSlots a.machine.role a.machine.extensions a.machine.slots
  own_sound : t.binding → SoundSlots a.machine.role a.machine.extensions own.slots
  log_eq : ¬ t.binding → own.log = a.world.log
  threshold_eq : own.log.threshold = a.world.log.threshold
  limit_eq : own.limit = t.limit?.getD a.machine.limit

/-- A parameter that was passed, or whose registers are the same anyway. -/
class Passed (t : Tolerance) (n : Nat) : Prop where
  lt : ∀ k, t.passed? = some k → n < k

theorem Passed.not_stale {t : Tolerance} {n : Nat} (h : t.Passed n) {j : Nat} (hj : j < 3) :
    ¬ t.stale (parameter n + j) := by
  rintro ⟨k, hk, hle, -⟩
  have := h.lt k hk
  unfold parameter at hle
  omega

/-- No register may differ. -/
class AllPassed (t : Tolerance) : Prop where
  passed?_eq : t.passed? = none

instance (priority := low) {t : Tolerance} [h : t.AllPassed] (n : Nat) : t.Passed n :=
  ⟨fun k hk => by rw [h.passed?_eq] at hk; cases hk⟩

theorem not_stale {t : Tolerance} [ht : t.AllPassed] (i : Nat) : ¬ t.stale i := by
  rintro ⟨n, hn, -⟩
  rw [ht.passed?_eq] at hn
  cases hn

theorem Allows.registers_eq {t : Tolerance} [t.AllPassed] {a : Activation} {own : Own}
    (h : t.Allows a own) : own.registers = a.machine.registers := h.registers.eq not_stale

theorem Passed.of_lt {t : Tolerance} {n k : Nat} (hk : ∀ m, t.passed? = some m → k = m)
    (h : n < k) : t.Passed n :=
  ⟨fun m hm => hk m hm ▸ h⟩

end Tolerance

/-- Two activations are the same but for what is tolerated. -/
def Similar (t : Tolerance) (a b : Activation) : Prop := ∃ own, t.Allows a own ∧ b = a.vary own

/-- Two outcomes have the same result or the same fault, and activations that are related. -/
inductive Agree (R : Activation → Activation → Prop) {α : Type} :
    EStateM.Result Fault Activation α → EStateM.Result Fault Activation α → Prop where
  | ok (v : α) {a b : Activation} (h : R a b) : Agree R (.ok v a) (.ok v b)
  | error (e : Fault) {a b : Activation} (h : R a b) : Agree R (.error e a) (.error e b)

theorem Agree.mono {R R' : Activation → Activation → Prop} {α : Type}
    {r s : EStateM.Result Fault Activation α} (h : Agree R r s) (hle : ∀ {a b}, R a b → R' a b) :
    Agree R' r s := by
  cases h with
  | ok v h => exact .ok v (hle h)
  | error e h => exact .error e (hle h)

theorem Agree.bind {R : Activation → Activation → Prop} {α β : Type} {x y : Action α}
    {f g : α → Action β} {a b : Activation} (hx : Agree R (x a) (y b))
    (hf : ∀ v {a b}, R a b → Agree R (f v a) (g v b)) : Agree R ((x >>= f) a) ((y >>= g) b) := by
  rw [bind_apply, bind_apply]
  generalize x a = r at hx
  generalize y b = s at hx
  cases hx with
  | ok v h => exact hf v h
  | error e h => exact .error e h

theorem Agree.tryCatch {R : Activation → Activation → Prop} {α : Type} {x y : Action α}
    {f g : Fault → Action α} {a b : Activation} (hx : Agree R (x a) (y b))
    (hf : ∀ e {a b}, R a b → Agree R (f e a) (g e b)) :
    Agree R (EStateM.tryCatch x f a) (EStateM.tryCatch y g b) := by
  unfold EStateM.tryCatch
  generalize x a = r at hx
  generalize y b = s at hx
  cases hx with
  | ok v h => exact .ok v h
  | error e h => exact hf e h

/-! ## Indifferent actions -/

namespace Action

/-- An action that ends in the same way from similar activations. -/
class Indifferent (t : Tolerance) {α : Type} (x : Action α) : Prop where
  agree : ∀ {a b : Activation}, Similar t a b → Agree (Similar t) (x a) (x b)

section Rules

variable {t : Tolerance} {α β : Type}

instance (v : α) : Indifferent t (pure v : Action α) := ⟨fun h => .ok v h⟩

instance (x : Action α) (f : α → Action β) [hx : Indifferent t x] [hf : ∀ v, Indifferent t (f v)] :
    Indifferent t (x >>= f) :=
  ⟨fun h => Agree.bind (hx.agree h) fun v {_ _} h => (hf v).agree h⟩

theorem Indifferent.bind {x : Action α} {f : α → Action β} (_ : Indifferent t x)
    (_ : ∀ v, Indifferent t (f v)) : Indifferent t (x >>= f) := inferInstance

instance (x : Action α) (f : α → β) [hx : Indifferent t x] : Indifferent t (f <$> x) := by
  rw [map_eq_pure_bind]
  infer_instance

instance (x : Action α) [Indifferent t x] : Indifferent t (discard x) :=
  inferInstanceAs (Indifferent t ((fun _ => PUnit.unit) <$> x))

instance (c : Prop) [Decidable c] (x y : Action α) [Indifferent t x] [Indifferent t y] :
    Indifferent t (if c then x else y) := by
  split <;> infer_instance

instance (f : Fault) : Indifferent t (throw f : Action α) := ⟨fun h => .error f h⟩

instance (c : Cause) : Indifferent t (fail c : Action α) := ⟨fun h => .error _ h⟩

instance (x : Except Cause α) : Indifferent t (lift x) := by
  unfold lift
  split <;> infer_instance

instance (x : Action α) (handler : Fault → Action α) [hx : Indifferent t x]
    [hh : ∀ f, Indifferent t (handler f)] : Indifferent t (tryCatch x handler) :=
  ⟨fun h => Agree.tryCatch (hx.agree h) fun e {_ _} h => (hh e).agree h⟩

end Rules

/-! ## Reading -/

section Reading

variable {t : Tolerance} {α : Type}

/-- An action that looks at the machine first, where what it does next depends on nothing that may
differ. -/
theorem Indifferent.of_machine {f : Machine → Action α}
    (hread : ∀ a own, t.Allows a own → f (a.machine.vary own) = f a.machine)
    (hf : ∀ m, Indifferent t (f m)) : Indifferent t (machine >>= f) where
  agree := by
    rintro a _ ⟨own, hallows, rfl⟩
    have hnext : (machine >>= f) (a.vary own) = f a.machine (a.vary own) :=
      congrFun (hread a own hallows) _
    rw [hnext]
    exact (hf a.machine).agree ⟨own, hallows, rfl⟩

theorem Indifferent.machine {f : Machine → Action α} (hread : ∀ m own, f (Machine.vary m own) = f m)
    (hf : ∀ m, Indifferent t (f m)) : Indifferent t (Action.machine >>= f) :=
  .of_machine (fun a own _ => hread a.machine own) hf

theorem Indifferent.world {f : World → Action α} (hread : ∀ w own, f (World.vary w own) = f w)
    (hf : ∀ w, Indifferent t (f w)) : Indifferent t (Action.world >>= f) where
  agree := by
    rintro a _ ⟨own, hallows, rfl⟩
    have hnext : (Action.world >>= f) (a.vary own) = f a.world (a.vary own) :=
      congrFun (hread a.world own) _
    rw [hnext]
    exact (hf a.world).agree ⟨own, hallows, rfl⟩

instance : Indifferent t role := by
  unfold role
  exact .machine (fun _ _ => rfl) fun _ => inferInstance

instance : Indifferent t argumentCount := by
  unfold argumentCount
  exact .machine (fun _ _ => rfl) fun _ => inferInstance

/-- What follows a look at the number of arguments may count on it. -/
theorem Indifferent.argumentCount {f : Nat → Action α}
    (hf : ∀ k, (∀ n, t.passed? = some n → k = n) → Indifferent t (f k)) :
    Indifferent t (Action.argumentCount >>= f) where
  agree := by
    rintro a _ ⟨own, hallows, rfl⟩
    exact (hf a.machine.argumentCount hallows.count_eq).agree ⟨own, hallows, rfl⟩

/-- Something that is read before a look at the number of arguments, and does not count unless the
argument was passed. -/
theorem Indifferent.guarded {β : Type} {x : Action β} {f : β → Nat → Action α} (n : Nat)
    (hx : ∀ a, ∃ v, x a = .ok v a) (hpassed : t.Passed n → Indifferent t x)
    (hguard : ∀ k v v', ¬ n < k → f v k = f v' k) (hf : ∀ v k, Indifferent t (f v k)) :
    Indifferent t (x >>= fun v => Action.argumentCount >>= f v) := by
  by_cases hn : t.Passed n
  · have := hpassed hn
    infer_instance
  refine ⟨?_⟩
  rintro a _ ⟨own, hallows, rfl⟩
  obtain ⟨v, hv⟩ := hx a
  obtain ⟨v', hv'⟩ := hx (a.vary own)
  -- The argument was not passed, so the two values that are read do not count.
  have hcount : ¬ n < a.machine.argumentCount := fun hlt => hn (.of_lt hallows.count_eq hlt)
  have hnext : (x >>= fun v => Action.argumentCount >>= f v) (a.vary own) =
      f v a.machine.argumentCount (a.vary own) := by
    rw [bind_apply, hv', ← hguard _ v' v hcount]
    rfl
  rw [hnext, bind_apply, hv]
  exact (hf v _).agree ⟨own, hallows, rfl⟩

/-- A value that is read from the registers. -/
theorem Indifferent.of_registers {f : Registers → α}
    (hread : ∀ {r r'}, r.SameBut t.stale r' → f r' = f r) :
    Indifferent t (do return f (← get).machine.registers : Action α) where
  agree := by
    rintro a _ ⟨own, hallows, rfl⟩
    have hvalue : f own.registers = f a.machine.registers := hread hallows.registers
    show Agree (Similar t) (.ok (f a.machine.registers) a) (.ok (f own.registers) (a.vary own))
    rw [hvalue]
    exact .ok _ ⟨own, hallows, rfl⟩

instance [t.AllPassed] (i : Nat) : Indifferent t (word i) where
  agree := by
    rintro a _ ⟨own, hallows, rfl⟩
    have hword : word i (a.vary own) = .ok (own.registers.get i) (a.vary own) := rfl
    rw [hword, hallows.registers_eq]
    exact .ok _ ⟨own, hallows, rfl⟩

instance [t.AllPassed] (i : Nat) : Indifferent t (single i) where
  agree := by
    rintro a _ ⟨own, hallows, rfl⟩
    have hsingle : single i (a.vary own) = .ok (own.registers.float i) (a.vary own) := rfl
    rw [hsingle, hallows.registers_eq]
    exact .ok _ ⟨own, hallows, rfl⟩

instance (n : Nat) [hn : t.Passed n] : Indifferent t (singleArgument n) :=
  .of_registers fun h => h.float_eq (hn.not_stale (j := 0) (by omega))

instance (n : Nat) [hn : t.Passed n] : Indifferent t (wordArgument n) :=
  .of_registers fun h => h.get_eq _ (hn.not_stale (j := 0) (by omega))

instance (n : Nat) [hn : t.Passed n] : Indifferent t (vectorArgument n) :=
  .of_registers fun h => h.vector_eq fun _ hj => hn.not_stale hj

end Reading

/-! ## Writing -/

section Writing

variable {t : Tolerance} {a : Activation} {own : Own}

/-- A change of the machine elsewhere than in what may differ. -/
structure Leaves (t : Tolerance) (m m' : Machine) : Prop where
  registers_eq : m'.registers = m.registers
  slots_eq : m'.slots = m.slots
  role_eq : m'.role = m.role
  extensions_eq : m'.extensions = m.extensions
  limit_eq : m'.limit = m.limit
  argumentCount_eq : t.passed? ≠ none → m'.argumentCount = m.argumentCount

theorem Leaves.allows {m : Machine} (h : Leaves t a.machine m) (hallows : t.Allows a own) :
    t.Allows { a with machine := m } own where
  registers := by
    rw [h.registers_eq]
    exact hallows.registers
  count_eq n hn := (h.argumentCount_eq (by rw [hn]; exact nofun)).trans (hallows.count_eq n hn)
  slots_eq hb := (hallows.slots_eq hb).trans h.slots_eq.symm
  sound hb := by
    rw [h.slots_eq, h.role_eq, h.extensions_eq]
    exact hallows.sound hb
  own_sound hb := by
    rw [h.role_eq, h.extensions_eq]
    exact hallows.own_sound hb
  log_eq := hallows.log_eq
  threshold_eq := hallows.threshold_eq
  limit_eq := by
    rw [h.limit_eq]
    exact hallows.limit_eq

theorem Indifferent.modifyMachine {f : Machine → Machine}
    (hvary : ∀ m own, f (Machine.vary m own) = (f m).vary own) (hleaves : ∀ m, Leaves t m (f m)) :
    Indifferent t (modifyMachine f) where
  agree := by
    rintro a _ ⟨own, hallows, rfl⟩
    refine .ok () ⟨own, (hleaves a.machine).allows hallows, ?_⟩
    show ⟨f (a.machine.vary own), a.world.vary own⟩ = Activation.vary ⟨f a.machine, a.world⟩ own
    rw [hvary]
    rfl

theorem allows_world {w : World} (hlog : w.log = a.world.log) (hallows : t.Allows a own) :
    t.Allows { a with world := w } own :=
  { hallows with
    log_eq := fun hb => (hallows.log_eq hb).trans hlog.symm
    threshold_eq := by rw [hlog]; exact hallows.threshold_eq }

/-- A change of the world elsewhere than in its log. -/
theorem Indifferent.modifyWorld {f : World → World}
    (hvary : ∀ w own, f (World.vary w own) = (f w).vary own) (hlog : ∀ w, (f w).log = w.log) :
    Indifferent t (modifyWorld f) where
  agree := by
    rintro a _ ⟨own, hallows, rfl⟩
    refine .ok () ⟨own, allows_world (hlog a.world) hallows, ?_⟩
    show ⟨a.machine.vary own, f (a.world.vary own)⟩ = Activation.vary ⟨a.machine, f a.world⟩ own
    rw [hvary]
    rfl

/-- The same note in two logs. -/
theorem allows_log {f : Log → Log} (hthreshold : ∀ l, (f l).threshold = l.threshold)
    (hallows : t.Allows a own) :
    t.Allows (a.mapWorld fun w => { w with log := f w.log }) { own with log := f own.log } :=
  { hallows with
    log_eq := fun hb => congrArg f (hallows.log_eq hb)
    threshold_eq := (hthreshold _).trans (hallows.threshold_eq.trans (hthreshold _).symm) }

theorem Indifferent.modifyLog {f : Log → Log} (hthreshold : ∀ l, (f l).threshold = l.threshold) :
    Indifferent t (Action.modifyWorld fun w => { w with log := f w.log }) where
  agree := by
    rintro a _ ⟨own, hallows, rfl⟩
    exact .ok () ⟨{ own with log := f own.log }, allows_log hthreshold hallows, rfl⟩

instance (level : Level) (text : Unit → String) : Indifferent t (record level text) :=
  .modifyLog fun l => l.threshold_add level text

instance (text : String) : Indifferent t (caution text) :=
  .modifyLog (f := (·.caution text)) fun l => l.threshold_add .warn _

/-- The same words put into the registers. -/
theorem Indifferent.modifyRegisters {f : Registers → Registers}
    (hf : ∀ {r r'}, r.SameBut t.stale r' → (f r).SameBut t.stale (f r')) :
    Indifferent t (modifyRegisters f) where
  agree := by
    rintro a _ ⟨own, hallows, rfl⟩
    refine .ok () ⟨{ own with registers := f own.registers }, ?_, rfl⟩
    exact { hallows with registers := hf hallows.registers }

instance [t.AllPassed] (f : Registers → Registers) : Indifferent t (modifyRegisters f) :=
  .modifyRegisters fun h => h.eq Tolerance.not_stale ▸ .refl _ _

end Writing

/-! ## Strings -/

section Strings

variable {t : Tolerance}

instance (h : Int) : Indifferent t (text h) where
  agree := by
    rintro a _ ⟨own, hallows, rfl⟩
    have hread : ∀ u : StringTable, Indifferent t (do
        if let some complaint := u.complaint? h then record .debug fun _ => complaint
        return u.get h : Action Bytes) := by
      intro u
      dsimp only
      split <;> infer_instance
    exact (hread a.machine.strings).agree ⟨own, hallows, rfl⟩

/-- The strings of the machine changed, and nothing else of it. -/
theorem indifferent_setStrings (strings : StringTable) :
    Indifferent t (modifyMachine fun m => { m with strings }) :=
  .modifyMachine (fun _ _ => rfl) fun _ => ⟨rfl, rfl, rfl, rfl, rfl, fun _ => rfl⟩

instance (s : Bytes) : Indifferent t (temporary s) := by
  have hstore : Indifferent t (machine >>= fun m => do
      modifyMachine fun m' => { m' with strings := (m.strings.temp s).2 }
      return (m.strings.temp s).1) :=
    .machine (fun _ _ => rfl) fun m => .bind (indifferent_setStrings _) fun _ => inferInstance
  unfold temporary
  dsimp only
  split
  · exact .bind inferInstance fun _ => hstore
  · exact hstore

instance (parts : List Bytes) : Indifferent t (zone parts) := by
  unfold zone
  exact .machine (fun _ _ => rfl) fun m => .bind (indifferent_setStrings _) fun _ => inferInstance

instance (h : Int) : Indifferent t (unzone h) := by
  unfold unzone
  refine .machine (fun _ _ => rfl) fun m => ?_
  dsimp only
  split
  · exact .bind (indifferent_setStrings _) fun _ => inferInstance
  · infer_instance

end Strings

/-! ## Arguments and results -/

section Arguments

variable {t : Tolerance}

instance (n : Nat) [t.Passed n] : Indifferent t (integerArgument n) := by
  unfold integerArgument
  infer_instance

instance (n : Nat) [t.Passed n] : Indifferent t (flagArgument n) := by
  unfold flagArgument
  infer_instance

instance (n : Nat) [t.Passed n] : Indifferent t (textArgument n) := by
  unfold textArgument
  infer_instance

theorem indifferent_readArguments {α : Type} {read : Nat → Action α}
    (hread : ∀ i, t.Passed i → Indifferent t (read i)) {n count : Nat}
    (h : ∀ i, i < n + count → t.Passed i) : Indifferent t (readArguments read n count) := by
  induction count generalizing n with
  | zero => unfold readArguments; infer_instance
  | succ count ih =>
    have hfirst : Indifferent t (read n) := hread n (h n (by omega))
    have hrest : Indifferent t (readArguments read (n + 1) count) :=
      ih fun i hi => h i (by omega)
    unfold readArguments
    infer_instance

/-- All arguments from one on have been passed. -/
theorem indifferent_argumentsFrom {α : Type} {read : Nat → Action α}
    (hread : ∀ i, t.Passed i → Indifferent t (read i)) (n : Nat) :
    Indifferent t (argumentsFrom read n) := by
  unfold argumentsFrom
  refine .argumentCount fun k hk => ?_
  rcases Nat.le_total n k with hn | hn
  · exact indifferent_readArguments hread fun i hi => .of_lt hk (by omega)
  · rw [Nat.sub_eq_zero_of_le hn]
    exact inferInstanceAs (Indifferent t (pure []))

instance (n : Nat) : Indifferent t (textsFrom n) :=
  indifferent_argumentsFrom (fun _ _ => inferInstance) n

instance (n : Nat) : Indifferent t (textFrom n) := by
  unfold textFrom
  infer_instance

instance (w : Int32) : Indifferent t (returnWord w) := .modifyRegisters fun h => h.set _ w

instance (v : Float32) : Indifferent t (returnSingle v) := .modifyRegisters fun h => h.setFloat _ v

instance (i : Int) : Indifferent t (returnInteger i) := by
  unfold returnInteger
  infer_instance

instance (b : Bool) : Indifferent t (returnFlag b) := by
  unfold returnFlag
  infer_instance

instance (v : Vec3) : Indifferent t (returnVector v) := .modifyRegisters fun h => h.setVector _ v

instance (s : Bytes) : Indifferent t (returnText s) := by
  unfold returnText
  infer_instance

instance : Indifferent t returnNull := by
  unfold returnNull
  infer_instance

instance (s : Option Bytes) : Indifferent t (returnText? s) := by
  cases s <;> unfold returnText? <;> infer_instance

end Arguments

end Action

end QuakeVm
