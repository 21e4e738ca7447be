import QuakeVm.Proofs.Indifference

/-!
# Builtins are indifferent

Every builtin reads the arguments that it was passed, with one exception, and none looks at slots or at
the log. What a builtin reads without a look at the number of arguments, it demands: the instances say
so by `Passed`, for the last of these parameters.

The exception is writing a buffer to a file. It reads the parameter for the place to begin at, passed
or not; what can be said of it is that nothing but the value of this place matters.
-/

namespace QuakeVm

open QuakeVm.Action Activation

namespace Tolerance

variable {t : Tolerance}

instance [h : t.Passed 2] : t.Passed 1 := ⟨fun k hk => Nat.lt_of_succ_lt (h.lt k hk)⟩

instance [h : t.Passed 1] : t.Passed 0 := ⟨fun k hk => Nat.lt_of_succ_lt (h.lt k hk)⟩

end Tolerance

namespace Builtins

variable {t : Tolerance}

/-! ## Numbers and vectors -/

section Math

instance (f : Float32 → Float32) [t.Passed 0] : Indifferent t (unary f) := by
  unfold unary
  infer_instance

instance (f : Float32 → Float32 → Float32) [t.Passed 1] : Indifferent t (binary f) := by
  unfold binary
  infer_instance

instance : Indifferent t random := by
  unfold random
  refine .world (fun _ _ => rfl) fun w => .bind ?_ fun _ => inferInstance
  exact .modifyWorld (fun _ _ => rfl) fun _ => rfl

instance (name : String) (f : Float32 → Float32 → Float32) :
    Indifferent t (foldArguments name f) := by
  unfold foldArguments
  refine .bind (indifferent_argumentsFrom (fun _ _ => inferInstance) 0) fun values => ?_
  cases values <;> infer_instance

instance [t.Passed 2] : Indifferent t bound := by unfold bound; infer_instance

instance [t.Passed 0] : Indifferent t vlen := by unfold vlen; infer_instance

instance [t.Passed 0] : Indifferent t normalize := by unfold normalize; infer_instance

instance [t.Passed 0] : Indifferent t vectoyaw := by unfold vectoyaw; infer_instance

instance [t.Passed 0] : Indifferent t vectoangles := by unfold vectoangles; infer_instance

instance [t.Passed 0] : Indifferent t ftoi := by unfold ftoi; infer_instance

instance [t.Passed 0] : Indifferent t itof := by unfold itof; infer_instance

end Math

/-! ## Strings -/

section Strings

instance (s : String) : Indifferent t (returnString s) := by unfold returnString; infer_instance

instance (f : Bytes → Bytes) [t.Passed 0] : Indifferent t (mapText f) := by
  unfold mapText
  infer_instance

instance [t.Passed 0] : Indifferent t ftos := by unfold ftos; infer_instance

instance [t.Passed 0] : Indifferent t vtos := by unfold vtos; infer_instance

instance [t.Passed 0] : Indifferent t etos := by unfold etos; infer_instance

instance [t.Passed 0] : Indifferent t stof := by unfold stof; infer_instance

instance [t.Passed 0] : Indifferent t stov := by unfold stov; infer_instance

instance [t.Passed 0] : Indifferent t stoi := by unfold stoi; infer_instance

instance [t.Passed 0] : Indifferent t itos := by unfold itos; infer_instance

instance [t.Passed 0] : Indifferent t stoh := by unfold stoh; infer_instance

instance [t.Passed 0] : Indifferent t htos := by unfold htos; infer_instance

instance [t.Passed 0] : Indifferent t strlen := by unfold strlen; infer_instance

instance : Indifferent t strcat := by unfold strcat; infer_instance

instance [t.Passed 2] : Indifferent t substring := by unfold substring; infer_instance

instance : Indifferent t strzone := by unfold strzone; infer_instance

instance [t.Passed 0] : Indifferent t strunzone := by unfold strunzone; infer_instance

/-- An argument that may be missing is read only if it is there. -/
instance (n : Nat) : Indifferent t (optionalSize n) := by
  unfold optionalSize
  refine .argumentCount fun k hk => ?_
  split
  · rename_i hn
    have := Tolerance.Passed.of_lt hk hn
    infer_instance
  · infer_instance

instance [t.Passed 1] : Indifferent t strstrofs := by
  unfold strstrofs
  refine .bind inferInstance fun hay => .bind inferInstance fun needle =>
    .bind inferInstance fun start => ?_
  split <;> infer_instance

instance [t.Passed 1] : Indifferent t str2chr := by unfold str2chr; infer_instance

instance (n : Nat) [t.Passed n] : Indifferent t (characterArgument n) := by
  unfold characterArgument
  infer_instance

instance : Indifferent t chr2str := by
  unfold chr2str
  exact .bind (indifferent_argumentsFrom (fun _ _ => inferInstance) 0) fun _ => inferInstance

instance [t.Passed 2] : Indifferent t strconv := by unfold strconv; infer_instance

instance [t.Passed 0] : Indifferent t strpad := by unfold strpad; infer_instance

instance (fold : Bool) [t.Passed 2] : Indifferent t (strncmp fold) := by
  unfold strncmp
  infer_instance

instance [t.Passed 1] : Indifferent t strcasecmp := by unfold strcasecmp; infer_instance

instance (fold : Bool) [t.Passed 2] : Indifferent t (strreplace fold) := by
  unfold strreplace
  infer_instance

instance [t.Passed 1] : Indifferent t infoadd := by
  unfold infoadd
  refine .bind inferInstance fun info => .bind inferInstance fun key =>
    .bind inferInstance fun value => ?_
  dsimp only
  split <;> infer_instance

instance [t.Passed 1] : Indifferent t infoget := by unfold infoget; infer_instance

instance [t.Passed 0] : Indifferent t crc16 := by unfold crc16; infer_instance

instance [t.Passed 0] : Indifferent t strlennocol := by unfold strlennocol; infer_instance

instance [t.Passed 1] : Indifferent t stringwidth := by
  unfold stringwidth
  refine .bind inferInstance fun s => .bind inferInstance fun colors => .guarded 2
    (fun a => ⟨_, rfl⟩) (fun _ => inferInstance) (fun k v v' hk => ?_) fun v k => inferInstance
  simp only [hk, if_false]

instance [t.Passed 0] : Indifferent t strftime := by
  unfold strftime
  refine .bind inferInstance fun here => .bind inferInstance fun s =>
    .world (fun _ _ => rfl) fun w => ?_
  split <;> infer_instance

/-- The arguments behind the format are those that were passed. -/
theorem formatArguments_vary {a : Activation} {own : Own} (h : t.Allows a own) :
    formatArguments (a.machine.vary own) = formatArguments a.machine := by
  have hpassed : ∀ n, n < a.machine.argumentCount - 1 → t.Passed (n + 1) :=
    fun n hn => .of_lt h.count_eq (by omega)
  have hword : ∀ n, n < a.machine.argumentCount - 1 →
      own.registers.get (parameter (n + 1)) = a.machine.registers.get (parameter (n + 1)) :=
    fun n hn => h.registers.get_eq _ ((hpassed n hn).not_stale (j := 0) (by omega))
  unfold formatArguments
  simp only [Format.Arguments.mk.injEq]
  refine ⟨?_, ?_, ?_, ?_⟩ <;> funext n <;> refine ite_congr rfl (fun hn => ?_) fun _ => rfl
  · exact h.registers.float_eq ((hpassed n hn).not_stale (j := 0) (by omega))
  · exact hword n hn
  · exact h.registers.vector_eq fun _ hj => (hpassed n hn).not_stale hj
  · show a.machine.strings.get (own.registers.get _).toInt = _
    rw [hword n hn]

instance (notes : List Format.Note) : Indifferent t (recordNotes notes) := by
  induction notes with
  | nil => unfold recordNotes; infer_instance
  | cons note rest ih =>
    cases note with
    | stringRead n =>
      unfold recordNotes
      refine .argumentCount fun k hk => ?_
      split
      · rename_i hn
        have : t.Passed (n + 1) := .of_lt hk (by omega)
        infer_instance
      · infer_instance
    | malformed text => unfold recordNotes Format.Note.caution?; dsimp only; infer_instance

instance [t.Passed 0] : Indifferent t sprintf := by
  unfold sprintf
  refine .bind inferInstance fun format => .of_machine (fun a own h => ?_) fun m => inferInstance
  simp only [formatArguments_vary h]

end Strings

/-! ## Tokens -/

section Tokens

instance (ts : List Token) : Indifferent t (setTokens ts) := by
  have : Indifferent t (modifyMachine fun m => { m with tokens := Token.keep ts }) :=
    .modifyMachine (fun _ _ => rfl) fun _ => ⟨rfl, rfl, rfl, rfl, rfl, fun _ => rfl⟩
  unfold setTokens
  infer_instance

instance (special : Bool) [t.Passed 0] : Indifferent t (tokenize special) := by
  unfold tokenize
  infer_instance

instance [t.Passed 0] : Indifferent t tokenizebyseparator := by
  unfold tokenizebyseparator
  infer_instance

instance [t.Passed 0] : Indifferent t tokenArgument := by
  unfold tokenArgument
  exact .bind inferInstance fun i => .machine (fun _ _ => rfl) fun m => inferInstance

instance [t.Passed 0] : Indifferent t argv := by unfold argv; infer_instance

instance (f : Token → Nat) [t.Passed 0] : Indifferent t (argvIndex f) := by
  unfold argvIndex
  refine .bind inferInstance fun token? => ?_
  cases token? <;> infer_instance

end Tokens

/-! ## Entities -/

section Entity

theorem indifferent_setEntities (entities : Entities) :
    Indifferent t (modifyMachine fun m => { m with entities }) :=
  .modifyMachine (fun _ _ => rfl) fun _ => ⟨rfl, rfl, rfl, rfl, rfl, fun _ => rfl⟩

instance : Indifferent t spawn := by
  unfold spawn
  exact .machine (fun _ _ => rfl) fun m => .bind inferInstance fun r =>
    .bind (indifferent_setEntities r.2) fun _ => inferInstance

instance [t.Passed 0] : Indifferent t remove := by
  unfold remove
  refine .bind inferInstance fun n => .machine (fun _ _ => rfl) fun m => ?_
  cases m.entities.remove? n.toInt with
  | none => infer_instance
  | some e => exact indifferent_setEntities e

instance [t.Passed 0] : Indifferent t nextent := by
  unfold nextent
  exact .bind inferInstance fun n => .machine (fun _ _ => rfl) fun m => inferInstance

instance (type : ValueType) (words : List Int32) : Indifferent t (valueText type words) := by
  unfold valueText
  cases type with
  | function => exact .machine (fun _ _ => rfl) fun m => inferInstance
  | _ => infer_instance

instance (number : Int) (all fields : List Definition) :
    Indifferent t (fieldLines number all fields) := by
  induction fields with
  | nil => unfold fieldLines; infer_instance
  | cons d rest ih =>
    unfold fieldLines
    split
    · exact ih
    · exact .machine (fun _ _ => rfl) fun m => inferInstance

instance (s : Bytes) : Indifferent t (modifyWorld (·.print s)) :=
  .modifyWorld (fun _ _ => rfl) fun _ => rfl

instance [t.Passed 0] : Indifferent t eprint := by
  unfold eprint
  exact .bind inferInstance fun n => .machine (fun _ _ => rfl) fun m => inferInstance

end Entity

/-! ## Console and configuration -/

section Console

instance (n : Nat) [t.Passed n] : Indifferent t (nameArgument n) := by
  unfold nameArgument
  infer_instance

instance [t.Passed 0] : Indifferent t cvar := by
  unfold cvar
  exact .bind inferInstance fun name => .world (fun _ _ => rfl) fun w => inferInstance

instance (f : Cvar → String) [t.Passed 0] : Indifferent t (cvarText f) := by
  unfold cvarText
  exact .bind inferInstance fun name => .world (fun _ _ => rfl) fun w => inferInstance

instance [t.Passed 0] : Indifferent t cvarType := by
  unfold cvarType
  exact .bind inferInstance fun name => .world (fun _ _ => rfl) fun w => inferInstance

instance : Indifferent t print := by unfold print; infer_instance

instance : Indifferent t dprint := by
  unfold dprint
  exact .world (fun _ _ => rfl) fun w => inferInstance

instance : Indifferent t localcmd := by
  have (s : Bytes) : Indifferent t (modifyWorld fun w =>
      { w with commandText := w.commandText ++ s }) :=
    .modifyWorld (fun _ _ => rfl) fun _ => rfl
  unfold localcmd
  infer_instance

instance [t.Passed 0] : Indifferent t checkcommand := by
  unfold checkcommand
  exact .bind inferInstance fun name => .world (fun _ _ => rfl) fun w => inferInstance

instance : Indifferent t raise := by unfold raise; infer_instance

instance : Indifferent t break_ := by
  unfold break_
  exact .machine (fun _ _ => rfl) fun m => inferInstance

instance (on : Bool) : Indifferent t (trace on) :=
  .modifyMachine (fun _ _ => rfl) fun _ => ⟨rfl, rfl, rfl, rfl, rfl, fun _ => rfl⟩

instance [t.Passed 0] : Indifferent t builtinsupported := by
  unfold builtinsupported
  infer_instance

/-- A change of machines that puts the same words into the registers of each. -/
structure Uniform (f : Machine → Machine) : Prop where
  vary : ∀ m own, f (Machine.vary m own) =
    (f m).vary { own with registers := (f (m.vary own)).registers }
  sameBut : ∀ m own {stale}, Registers.SameBut stale (Machine.registers m) (Own.registers own) →
    (f m).registers.SameBut stale (f (m.vary own)).registers

theorem uniform_assign (v : Autocvar) (c : Cvar) : Uniform (Machine.assign · v c) := by
  unfold Machine.assign
  cases v.type with
  | float => exact ⟨fun _ _ => rfl, fun _ _ _ h => h.setFloat _ _⟩
  | vector => exact ⟨fun _ _ => rfl, fun _ _ _ h => h.setVector _ _⟩
  | string => exact ⟨fun _ _ => rfl, fun _ _ _ h => h.set _ _⟩
  | _ => exact ⟨fun _ _ => rfl, fun _ _ _ h => h⟩

theorem uniform_synchronize (c : Cvars) (v : Autocvar) : Uniform (Machine.synchronize · c v) := by
  unfold Machine.synchronize
  cases c.get? v.name with
  | some x => exact uniform_assign v x
  | none => exact ⟨fun _ _ => rfl, fun _ _ _ h => h⟩

theorem uniform_update (c : Cvars) (name : String) : Uniform (Machine.update · c name) where
  vary m own := by
    have hfollowed : (m.vary own).autocvars = m.autocvars := rfl
    unfold Machine.update
    rw [hfollowed]
    cases m.autocvars.find? (·.name == name) with
    | some v => exact (uniform_synchronize c v).vary m own
    | none => rfl
  sameBut m own stale h := by
    have hfollowed : (m.vary own).autocvars = m.autocvars := rfl
    unfold Machine.update
    rw [hfollowed]
    cases m.autocvars.find? (·.name == name) with
    | some v => exact (uniform_synchronize c v).sameBut m own h
    | none => exact h

theorem similar_update {a b : Activation} (h : Similar t a b) (c : Cvars) (name : String) :
    Similar t (a.mapMachine (·.update c name)) (b.mapMachine (·.update c name)) := by
  obtain ⟨own, hallows, rfl⟩ := h
  have huniform := uniform_update c name
  obtain ⟨registers, strings, hupdate⟩ := a.machine.sameButGlobals_update c name
  refine ⟨{ own with registers := ((a.machine.vary own).update c name).registers }, ?_, ?_⟩
  · have hregisters := huniform.sameBut _ _ hallows.registers
    rw [hupdate] at hregisters
    show t.Allows ⟨a.machine.update c name, a.world⟩ _
    rw [hupdate]
    exact { hallows with registers := hregisters }
  · show ⟨(a.machine.vary own).update c name, a.world.vary own⟩ =
      Activation.vary ⟨a.machine.update c name, a.world⟩ _
    rw [huniform.vary]
    rfl

/-- Setting a variable does the same to similar activations. -/
theorem similar_assignCvar {a b : Activation} (h : Similar t a b) (name text : String) :
    Similar t (a.assignCvar name text) (b.assignCvar name text) := by
  obtain ⟨own, hallows, rfl⟩ := h
  have hcvars : (a.vary own).world.cvars = a.world.cvars := rfl
  unfold assignCvar World.setCvar
  rw [hcvars]
  cases a.world.cvars.set name text with
  | error refusal =>
    refine ⟨{ own with log := own.log.caution refusal.message }, ?_, rfl⟩
    exact allows_log (f := (·.caution refusal.message)) (fun l => l.threshold_add .warn _) hallows
  | ok r =>
    obtain ⟨changed, cvars⟩ := r
    cases changed with
    | false => exact ⟨own, allows_world rfl hallows, rfl⟩
    | true =>
      have hset : Similar t { a with world := { a.world with
          cvars, changed := if a.world.changed.contains name then a.world.changed
            else a.world.changed ++ [name] } } _ := ⟨own, allows_world rfl hallows, rfl⟩
      exact similar_update hset cvars name

instance [t.Passed 1] : Indifferent t cvarSet := by
  have (name text : String) : Indifferent t (setVariable name text) := by
    refine ⟨fun h => ?_⟩
    rw [setVariable_apply, setVariable_apply]
    exact .ok () (similar_assignCvar h name text)
  unfold cvarSet
  infer_instance

/-- Asking about an extension gives the same answer in similar activations. -/
instance (name : String) : Indifferent t (askExtension name) where
  agree := by
    rintro a _ ⟨own, hallows, rfl⟩
    have hcvars : (a.vary own).world.cvars = a.world.cvars := rfl
    rw [askExtension_apply, askExtension_apply]
    unfold World.queryExtension
    rw [hcvars]
    cases Extension.query a.world.cvars name with
    | unknown => exact .ok false ⟨own, hallows, rfl⟩
    | available => exact .ok true ⟨own, hallows, rfl⟩
    | hidden =>
      have hrecord := allows_log (f := (·.add .info fun _ => Extension.hiddenText name))
        (fun l => l.threshold_add .info _) hallows
      exact .ok false ⟨_, hrecord, rfl⟩

instance [t.Passed 0] : Indifferent t checkextension := by
  have (key : String) :
      Indifferent t (modifyWorld fun w => { w with queried := w.queried ++ [key] }) :=
    .modifyWorld (fun _ _ => rfl) fun _ => rfl
  unfold checkextension
  exact .bind inferInstance fun name => .bind inferInstance fun yes =>
    .world (fun _ _ => rfl) fun w => inferInstance

/-- Whether a function can be called does not depend on what has been bound. -/
theorem usable_vary {a : Activation} {own : Own} (h : t.Allows a own) (function : Int) :
    (a.machine.vary own).usable function = a.machine.usable function := by
  by_cases hb : t.binding
  · have hsound : a.machine.Sound := h.sound hb
    have hown : (a.machine.vary own).Sound := h.own_sound hb
    rw [Bool.eq_iff_iff, hown.usable_iff, hsound.usable_iff]
    rfl
  · have hslot (slot : Nat) : (a.machine.vary own).slot? slot = a.machine.slot? slot := by
      unfold Machine.slot?
      rw [← h.slots_eq hb]
      rfl
    unfold Machine.usable
    simp only [hslot]
    rfl

instance [t.Passed 0] : Indifferent t checkbuiltin := by
  unfold checkbuiltin
  refine .bind inferInstance fun f => .of_machine (fun a own h => ?_) fun m => inferInstance
  rw [usable_vary h]

end Console

/-! ## Files, searches and string buffers -/

section Storage

instance {α : Type} (x : Except String α) : Indifferent t (orCaution x) := by
  cases x <;> unfold orCaution <;> infer_instance

instance {α : Type} (x : Except FileRefusal α) : Indifferent t (orRefusal x) := by
  unfold orRefusal
  infer_instance

instance (name : String) (mode : FileMode) : Indifferent t (openPath? name mode) := by
  unfold openPath?
  refine .world (fun _ _ => rfl) fun w => ?_
  cases mode with
  | read =>
    dsimp only
    cases w.sandbox.readPath w.disk name with
    | ok path => infer_instance
    | error r => dsimp only; cases r.caution? <;> infer_instance
  | append | write =>
    dsimp only
    cases w.sandbox.writePath w.disk name with
    | ok r => exact .bind (.modifyWorld (fun _ _ => rfl) fun _ => rfl) fun _ => inferInstance
    | error r => dsimp only; cases r.caution? <;> infer_instance

instance (name : String) (mode : FileMode) : Indifferent t (openFile name mode) := by
  unfold openFile
  refine .bind inferInstance fun path? => ?_
  cases path? with
  | none => infer_instance
  | some path =>
    refine .world (fun _ _ => rfl) fun w => ?_
    cases openPlace w path mode with
    | error e => infer_instance
    | ok r =>
      exact .bind inferInstance fun role =>
        .bind (.modifyWorld (fun _ _ => rfl) fun _ => rfl) fun _ => inferInstance

instance [t.Passed 1] : Indifferent t fopen := by
  unfold fopen
  refine .bind inferInstance fun s => .bind inferInstance fun mode => ?_
  split
  · infer_instance
  · refine .bind inferInstance fun handle? => ?_
    cases handle? <;> infer_instance

instance (handle : Int) : Indifferent t (closeFile handle) := by
  unfold closeFile
  refine .world (fun _ _ => rfl) fun w => .bind inferInstance fun role =>
    .bind inferInstance fun files? => ?_
  cases files? with
  | none => infer_instance
  | some files => exact .bind (.modifyWorld (fun _ _ => rfl) fun _ => rfl) fun _ => inferInstance

instance [t.Passed 0] : Indifferent t fclose := by unfold fclose; infer_instance

instance (handle : Int) : Indifferent t (nextLine handle) := by
  unfold nextLine
  refine .world (fun _ _ => rfl) fun w => .bind inferInstance fun role =>
    .bind inferInstance fun r? => ?_
  cases r? with
  | none => infer_instance
  | some r => exact .bind (.modifyWorld (fun _ _ => rfl) fun _ => rfl) fun _ => inferInstance

instance [t.Passed 0] : Indifferent t fgets := by unfold fgets; infer_instance

instance (handle : Int) (s : Bytes) : Indifferent t (writeFile handle s) := by
  unfold writeFile
  refine .world (fun _ _ => rfl) fun w => .bind inferInstance fun role =>
    .bind inferInstance fun r? => ?_
  cases r? with
  | none => infer_instance
  | some r => exact .bind (.modifyWorld (fun _ _ => rfl) fun _ => rfl) fun _ => inferInstance

instance [t.Passed 0] : Indifferent t fputs := by unfold fputs; infer_instance

instance (pattern : String) (ignoreCase quiet : Bool) :
    Indifferent t (startSearch pattern ignoreCase quiet) := by
  unfold startSearch
  refine .world (fun _ _ => rfl) fun w => .bind inferInstance fun role => ?_
  split
  · exact .bind inferInstance fun _ =>
      .bind (.modifyWorld (fun _ _ => rfl) fun _ => rfl) fun _ => inferInstance
  · dsimp only
    split <;> infer_instance

instance [t.Passed 2] : Indifferent t searchBegin := by
  unfold searchBegin
  refine .bind inferInstance fun s => .bind inferInstance fun ignoreCase =>
    .bind inferInstance fun quiet => .bind inferInstance fun handle? => ?_
  cases handle? <;> infer_instance

instance (handle : Int) (operation : String) : Indifferent t (findSearch handle operation) := by
  unfold findSearch
  exact .world (fun _ _ => rfl) fun w => inferInstance

instance (handle : Int) : Indifferent t (endSearch handle) := by
  have : Indifferent t (modifyWorld fun w =>
      { w with searches := w.searches.erase handle.toNat }) :=
    .modifyWorld (fun _ _ => rfl) fun _ => rfl
  unfold endSearch
  infer_instance

instance [t.Passed 0] : Indifferent t searchEnd := by unfold searchEnd; infer_instance

instance (handle : Int) : Indifferent t (searchSize handle) := by unfold searchSize; infer_instance

instance [t.Passed 0] : Indifferent t searchGetsize := by
  unfold searchGetsize
  refine .bind inferInstance fun handle => .bind inferInstance fun n? => ?_
  cases n? <;> infer_instance

instance (operation : String) [t.Passed 1] : Indifferent t (foundFile operation) := by
  have (handle index : Int) : Indifferent t (searchFile handle index operation) := by
    unfold searchFile
    exact .world (fun _ _ => rfl) fun w => inferInstance
  unfold foundFile
  infer_instance

instance [t.Passed 1] : Indifferent t searchGetfilename := by
  unfold searchGetfilename
  infer_instance

instance [t.Passed 1] : Indifferent t searchGetfilesize := by
  unfold searchGetfilesize
  refine .bind inferInstance fun file? => ?_
  cases file? <;> infer_instance

instance [t.Passed 1] : Indifferent t searchGetfilemtime := by
  unfold searchGetfilemtime
  infer_instance

instance (handle : Int) (operation : String) : Indifferent t (findBuffer handle operation) := by
  unfold findBuffer
  exact .world (fun _ _ => rfl) fun w => inferInstance

instance (handle : Int) (b : Buffer) : Indifferent t (putBuffer handle b) := by
  unfold putBuffer
  exact .bind inferInstance fun owner => .modifyWorld (fun _ _ => rfl) fun _ => rfl

instance : Indifferent t bufCreate := by
  have : Indifferent t createBuffer := by
    unfold createBuffer
    refine .world (fun _ _ => rfl) fun w => .bind inferInstance fun role => ?_
    split
    · exact .bind (.modifyWorld (fun _ _ => rfl) fun _ => rfl) fun _ => inferInstance
    · infer_instance
  unfold bufCreate
  refine .bind inferInstance fun handle? => ?_
  cases handle? <;> infer_instance

instance [t.Passed 0] : Indifferent t bufDel := by
  have (handle : Int) : Indifferent t (modifyWorld fun w =>
      { w with buffers := w.buffers.delete handle }) := .modifyWorld (fun _ _ => rfl) fun _ => rfl
  unfold bufDel deleteBuffer
  infer_instance

instance [t.Passed 0] : Indifferent t bufGetsize := by
  unfold bufGetsize bufferSize
  refine .bind inferInstance fun handle => .bind inferInstance fun n? => ?_
  cases n? <;> infer_instance

instance (handle : Int) (operation : String) (f : Buffer → Buffer) :
    Indifferent t (changeBuffer handle operation f) := by
  unfold changeBuffer
  refine .bind inferInstance fun b? => ?_
  cases b? <;> infer_instance

instance (source target : Int) : Indifferent t (copyBuffer source target) := by
  unfold copyBuffer
  refine .bind inferInstance fun b? => ?_
  cases b? <;> infer_instance

instance [t.Passed 1] : Indifferent t bufCopy := by unfold bufCopy; infer_instance

instance [t.Passed 2] : Indifferent t bufSort := by unfold bufSort sortBuffer; infer_instance

instance (handle : Int) (glue : Bytes) : Indifferent t (implodeBuffer handle glue) := by
  unfold implodeBuffer
  refine .bind inferInstance fun b? => ?_
  cases b? <;> infer_instance

instance [t.Passed 1] : Indifferent t bufImplode := by unfold bufImplode; infer_instance

instance [t.Passed 1] : Indifferent t bufstrGet := by unfold bufstrGet bufferString; infer_instance

instance (handle : Int) (b : Buffer) (index : Nat) (s : Bytes) (operation : String) :
    Indifferent t (storeString handle b index s operation) := by
  unfold storeString
  cases b.set? index s <;> infer_instance

instance (handle index : Int) (s : Bytes) : Indifferent t (setString handle index s) := by
  unfold setString
  split
  · infer_instance
  · refine .bind inferInstance fun b? => ?_
    cases b? <;> infer_instance

instance [t.Passed 2] : Indifferent t bufstrSet := by unfold bufstrSet; infer_instance

instance (handle : Int) (s : Bytes) (atEnd : Bool) : Indifferent t (addString handle s atEnd) := by
  unfold addString
  refine .bind inferInstance fun b? => ?_
  cases b? <;> infer_instance

instance [t.Passed 2] : Indifferent t bufstrAdd := by
  unfold bufstrAdd
  refine .bind inferInstance fun handle => .bind inferInstance fun s =>
    .bind inferInstance fun atEnd => .bind inferInstance fun index? => ?_
  cases index? <;> infer_instance

instance (handle index : Int) : Indifferent t (freeString handle index) := by
  unfold freeString
  refine .bind inferInstance fun b? => ?_
  cases b? with
  | none => infer_instance
  | some b => dsimp only; cases b.remove? index <;> infer_instance

instance [t.Passed 1] : Indifferent t bufstrFree := by unfold bufstrFree; infer_instance

instance (name : String) : Indifferent t (readForBuffer name) := by
  unfold readForBuffer
  refine .world (fun _ _ => rfl) fun w => ?_
  dsimp only
  cases w.sandbox.readPath w.disk name with
  | error r => dsimp only; cases r.caution? <;> infer_instance
  | ok path => dsimp only; cases w.disk.read path <;> infer_instance

instance (handle : Int) (text : Bytes) : Indifferent t (addLines handle text) := by
  unfold addLines
  refine .bind inferInstance fun b? => ?_
  cases b? with
  | none => infer_instance
  | some b =>
    refine .bind inferInstance fun _ => ?_
    dsimp only
    split <;> infer_instance

instance [t.Passed 1] : Indifferent t bufLoadfile := by
  unfold bufLoadfile
  refine .bind inferInstance fun s => .bind inferInstance fun handle =>
    .bind inferInstance fun content? => ?_
  cases content? <;> infer_instance

instance (handle : Int) (lines : List Bytes) : Indifferent t (writeLines handle lines) := by
  induction lines with
  | nil => unfold writeLines; infer_instance
  | cons s rest ih => unfold writeLines; infer_instance

/-- Writing the strings of a buffer from a place on, when this place has been read. -/
def writeStrings (file handle : Int) (start : Nat) : Action Unit := do
  let count := Number.toSize (← singleArgument 3)
  let count? := if 3 < (← argumentCount) then some count else none
  match ← bufferRange handle start count? with
  | none => returnFlag false
  | some strings => returnFlag (← writeLines file strings)

instance (file handle : Int) (start : Nat) : Indifferent t (writeStrings file handle start) := by
  -- The number of strings is read before the number of arguments, and dropped if it was not passed.
  unfold writeStrings bufferRange
  refine .guarded 3 (fun a => ⟨_, rfl⟩) (fun _ => inferInstance) (fun k v v' hk => ?_) fun v k => ?_
  · simp only [hk, if_false]
  · refine .bind inferInstance fun strings? => ?_
    cases strings? <;> infer_instance

instance (pattern : Bytes) : Indifferent t (matcher? pattern) := by
  unfold matcher?
  dsimp only
  split
  · infer_instance
  · split <;> infer_instance

instance [t.Passed 2] : Indifferent t bufCvarlist := by
  unfold bufCvarlist replaceBuffer
  exact .bind inferInstance fun handle => .bind inferInstance fun pattern =>
    .bind inferInstance fun wanted => .bind inferInstance fun antipattern =>
    .bind inferInstance fun unwanted => .world (fun _ _ => rfl) fun w => inferInstance

end Storage

/-! ## All of them -/

end Builtins

/-- The number of parameters that a primitive reads whether they were passed or not. The place to begin
writing a buffer at is not counted. -/
def Primitive.demanded : Primitive → Nat
  | .break_ | .random | .raise | .spawn | .dprint | .traceon | .traceoff | .localcmd | .minimum
  | .maximum | .strcat | .strzone | .chr2str | .print | .bufCreate => 0
  | .pow | .cvarSet | .fopen | .strstrofs | .str2chr | .infoadd | .infoget | .strcasecmp
  | .searchGetfilename | .searchGetfilesize | .searchGetfilemtime | .bufCopy | .bufImplode
  | .bufstrGet | .bufstrFree | .atan2 | .bufLoadfile | .bufWritefile | .stringwidth => 2
  | .bound | .substring | .strconv | .strncmp | .strncasecmp | .searchBegin | .bufSort | .bufstrSet
  | .bufstrAdd | .strreplace | .strireplace | .bufCvarlist => 3
  | _ => 1

namespace Builtins

theorem bufWritefile_eq : bufWritefile = (do
    let file ← integerArgument 0
    let handle ← integerArgument 1
    let start ← singleArgument 2
    writeStrings file handle (Number.toSize start)) := rfl

/-- To write a buffer to a file is to read two handles and a place, and to write from there. -/
theorem bufWritefile_apply (a : Activation) :
    bufWritefile a = writeStrings (Number.toInt32 (a.machine.registers.float (parameter 0)))
      (Number.toInt32 (a.machine.registers.float (parameter 1)))
      (Number.toSize (a.machine.registers.float (parameter 2))) a := by
  rw [bufWritefile_eq]
  rfl

/-- Of the parameters that were not passed, writing a buffer to a file looks at the place only. -/
theorem agree_bufWritefile {t : Tolerance} [hpassed : t.Passed 1] {a b : Activation}
    (h : Similar t a b)
    (hstart : Number.toSize (b.machine.registers.float (parameter 2)) =
      Number.toSize (a.machine.registers.float (parameter 2))) :
    Agree (Similar t) (bufWritefile a) (bufWritefile b) := by
  obtain ⟨own, hallows, rfl⟩ := h
  have hsame (i : Nat) (hi : t.Passed i) : (a.vary own).machine.registers.float (parameter i) =
      a.machine.registers.float (parameter i) :=
    hallows.registers.float_eq (hi.not_stale (j := 0) (by omega))
  rw [bufWritefile_apply, bufWritefile_apply, hsame 0 inferInstance, hsame 1 hpassed, hstart]
  exact Indifferent.agree ⟨own, hallows, rfl⟩

/-- **A builtin does not look at parameters that it was not passed, at slots or at the log.** Writing a
buffer to a file does: it needs one parameter more than it demands. -/
theorem indifferent_run {t : Tolerance} {p : Primitive} (h : ∀ i, i < p.demanded → t.Passed i)
    (hp : p ≠ .bufWritefile) : Indifferent t (run p) := by
  cases p with
  | break_ | random | raise | spawn | dprint | traceon | traceoff | localcmd | minimum | maximum
  | strcat | strzone | chr2str | print | bufCreate =>
    unfold run
    infer_instance
  | pow | cvarSet | fopen | strstrofs | str2chr | infoadd | infoget | strcasecmp
  | searchGetfilename | searchGetfilesize | searchGetfilemtime | bufCopy | bufImplode | bufstrGet
  | bufstrFree | atan2 | bufLoadfile | stringwidth =>
    have : t.Passed 1 := h 1 (by decide)
    unfold run
    infer_instance
  | bound | substring | strconv | strncmp | strncasecmp | searchBegin | bufSort | bufstrSet
  | bufstrAdd | strreplace | strireplace | bufCvarlist =>
    have : t.Passed 2 := h 2 (by decide)
    unfold run
    infer_instance
  | bufWritefile => exact absurd rfl hp
  | _ =>
    have : t.Passed 0 := h 0 (by decide)
    unfold run
    infer_instance

/-- Where all registers are the same, every builtin is indifferent. -/
theorem indifferent_run_allPassed {t : Tolerance} [t.AllPassed] (p : Primitive) :
    Indifferent t (run p) := by
  by_cases hp : p = .bufWritefile
  · subst hp
    refine ⟨fun h => agree_bufWritefile h ?_⟩
    obtain ⟨own, hallows, rfl⟩ := h
    show Number.toSize (own.registers.float _) = _
    rw [hallows.registers_eq]
  · exact indifferent_run (fun _ _ => inferInstance) hp

end Builtins

end QuakeVm
