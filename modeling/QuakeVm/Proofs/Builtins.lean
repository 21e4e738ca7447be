import QuakeVm.Builtin.Run
import QuakeVm.Proofs.Tables

/-!
# Builtins are confined

Every builtin makes elementary changes only. Most of them read arguments, compute and return, and the
rules for actions are enough; the others have a case for each way they can end.
-/

namespace QuakeVm.Builtins

open QuakeVm.Action Activation

/-! ## Numbers and vectors -/

section Math

instance (f : Float32 → Float32) : Confined (unary f) := by unfold unary; infer_instance

instance (f : Float32 → Float32 → Float32) : Confined (binary f) := by unfold binary; infer_instance

instance : Confined random := by unfold random; infer_instance

instance (name : String) (f : Float32 → Float32 → Float32) : Confined (foldArguments name f) := by
  unfold foldArguments
  refine .bind inferInstance fun values => ?_
  cases values <;> infer_instance

instance : Confined bound := by unfold bound; infer_instance

instance : Confined vlen := by unfold vlen; infer_instance

instance : Confined normalize := by unfold normalize; infer_instance

instance : Confined vectoyaw := by unfold vectoyaw; infer_instance

instance : Confined vectoangles := by unfold vectoangles; infer_instance

instance : Confined ftoi := by unfold ftoi; infer_instance

instance : Confined itof := by unfold itof; infer_instance

end Math

/-! ## Strings -/

section Strings

instance (s : String) : Confined (returnString s) := by unfold returnString; infer_instance

instance (f : Bytes → Bytes) : Confined (mapText f) := by unfold mapText; infer_instance

instance : Confined ftos := by unfold ftos; infer_instance

instance : Confined vtos := by unfold vtos; infer_instance

instance : Confined etos := by unfold etos; infer_instance

instance : Confined stof := by unfold stof; infer_instance

instance : Confined stov := by unfold stov; infer_instance

instance : Confined stoi := by unfold stoi; infer_instance

instance : Confined itos := by unfold itos; infer_instance

instance : Confined stoh := by unfold stoh; infer_instance

instance : Confined htos := by unfold htos; infer_instance

instance : Confined strlen := by unfold strlen; infer_instance

instance : Confined strcat := by unfold strcat; infer_instance

instance : Confined substring := by unfold substring; infer_instance

instance : Confined strzone := by unfold strzone; infer_instance

instance : Confined strunzone := by unfold strunzone; infer_instance

instance (n : Nat) : Confined (optionalSize n) := by unfold optionalSize; infer_instance

instance : Confined strstrofs := by
  unfold strstrofs
  refine .bind inferInstance fun hay => .bind inferInstance fun needle =>
    .bind inferInstance fun start => ?_
  split <;> infer_instance

instance : Confined str2chr := by unfold str2chr; infer_instance

instance (n : Nat) : Confined (characterArgument n) := by
  unfold characterArgument
  infer_instance

instance : Confined chr2str := by unfold chr2str; infer_instance

instance : Confined strconv := by unfold strconv; infer_instance

instance : Confined strpad := by unfold strpad; infer_instance

instance (fold : Bool) : Confined (strncmp fold) := by unfold strncmp; infer_instance

instance : Confined strcasecmp := by unfold strcasecmp; infer_instance

instance (fold : Bool) : Confined (strreplace fold) := by unfold strreplace; infer_instance

instance : Confined infoadd := by
  unfold infoadd
  refine .bind inferInstance fun info => .bind inferInstance fun key =>
    .bind inferInstance fun value => ?_
  dsimp only
  split <;> infer_instance

instance : Confined infoget := by unfold infoget; infer_instance

instance : Confined crc16 := by unfold crc16; infer_instance

instance : Confined strlennocol := by unfold strlennocol; infer_instance

instance : Confined stringwidth := by unfold stringwidth; infer_instance

instance : Confined strftime := by
  unfold strftime
  refine .bind inferInstance fun here => .bind inferInstance fun s => .bind inferInstance fun w => ?_
  split <;> infer_instance

instance (notes : List Format.Note) : Confined (recordNotes notes) := by
  induction notes with
  | nil => unfold recordNotes; infer_instance
  | cons note rest ih =>
    cases note with
    | stringRead n => unfold recordNotes; infer_instance
    | malformed text => unfold recordNotes Format.Note.caution?; dsimp only; infer_instance

instance : Confined sprintf := by unfold sprintf; infer_instance

end Strings

/-! ## Tokens -/

section Tokens

instance (ts : List Token) : Confined (setTokens ts) := by
  have : Confined (modifyMachine fun m => { m with tokens := Token.keep ts }) :=
    .modifyMachine fun a => (Effect.tokens a _).effects
  unfold setTokens
  infer_instance

instance (special : Bool) : Confined (tokenize special) := by unfold tokenize; infer_instance

instance : Confined tokenizebyseparator := by unfold tokenizebyseparator; infer_instance

instance : Confined tokenArgument := by unfold tokenArgument; infer_instance

instance : Confined argv := by unfold argv; infer_instance

instance (f : Token → Nat) : Confined (argvIndex f) := by
  unfold argvIndex
  refine .bind inferInstance fun token? => ?_
  cases token? <;> infer_instance

end Tokens

/-! ## Entities -/

section Entity

instance : Confined spawn := by
  unfold spawn
  refine .of_machine fun a => ?_
  cases h : a.machine.entities.allocate with
  | error e => exact .refl a
  | ok r =>
    obtain ⟨n, e⟩ := r
    exact (Effect.allocate a h).effects.trans ((inferInstance : Confined (returnWord _)).effects _)

instance : Confined remove := by
  unfold remove
  refine .bind inferInstance fun n => .of_machine fun a => ?_
  cases h : a.machine.entities.remove? n.toInt with
  | none => dsimp only; exact Confined.effects a
  | some e => dsimp only; exact (Effect.remove a h).effects

instance : Confined nextent := by unfold nextent; infer_instance

instance (type : ValueType) (words : List Int32) : Confined (valueText type words) := by
  unfold valueText
  cases type <;> infer_instance

instance (number : Int) (all fields : List Definition) :
    Confined (fieldLines number all fields) := by
  induction fields with
  | nil => unfold fieldLines; infer_instance
  | cons d rest ih => unfold fieldLines; infer_instance

instance : Confined eprint := by unfold eprint World.print; infer_instance

end Entity

/-! ## Console and configuration -/

section Console

instance (n : Nat) : Confined (nameArgument n) := by unfold nameArgument; infer_instance

instance : Confined cvar := by unfold cvar; infer_instance

instance (f : Cvar → String) : Confined (cvarText f) := by unfold cvarText; infer_instance

instance : Confined cvarType := by unfold cvarType; infer_instance

theorem setVariable_apply (name text : String) (a : Activation) :
    setVariable name text a = .ok () (a.assignCvar name text) := by
  unfold setVariable assignCvar
  rw [bind_apply, world_apply]
  dsimp only
  generalize a.world.setCvar name text = r
  obtain ⟨changed, w⟩ := r
  cases changed <;> rfl

instance (name text : String) : Confined (setVariable name text) where
  effects a := by
    rw [final, setVariable_apply]
    exact (Effect.assignCvar a name text).effects

instance : Confined cvarSet := by unfold cvarSet; infer_instance

instance : Confined print := by unfold print World.print; infer_instance

instance : Confined dprint := by unfold dprint; infer_instance

instance : Confined localcmd := by unfold localcmd; infer_instance

instance : Confined checkcommand := by unfold checkcommand; infer_instance

instance : Confined raise := by unfold raise; infer_instance

instance : Confined break_ := by unfold break_; infer_instance

instance (on : Bool) : Confined (trace on) :=
  .modifyMachine fun a => (Effect.tracing a on).effects

theorem askExtension_apply (name : String) (a : Activation) :
    askExtension name a = .ok (a.world.queryExtension name).1
      { a with world := (a.world.queryExtension name).2 } := rfl

/-- Asking about an extension leaves a record at most. -/
instance (name : String) : Confined (askExtension name) where
  effects a := by
    rw [final, askExtension_apply]
    dsimp only
    unfold World.queryExtension
    split
    · exact .refl a
    · exact .refl a
    · exact (Effect.world a (a.world.record .info (Extension.hiddenText name))
        (World.uses_common _ _ _ _ _ _ _ _)).effects

instance : Confined checkextension := by unfold checkextension; infer_instance

instance : Confined builtinsupported := by unfold builtinsupported; infer_instance

instance : Confined checkbuiltin := by unfold checkbuiltin; infer_instance

end Console

/-! ## Files -/

section Files

instance : Confined fopen := by
  unfold fopen
  refine .bind inferInstance fun s => .bind inferInstance fun mode => ?_
  split
  · infer_instance
  · refine .bind inferInstance fun handle? => ?_
    cases handle? <;> infer_instance

instance : Confined fclose := by unfold fclose; infer_instance

instance : Confined fgets := by unfold fgets; infer_instance

instance : Confined fputs := by unfold fputs; infer_instance

end Files

/-! ## Searches -/

section Searches

instance : Confined searchBegin := by
  unfold searchBegin
  refine .bind inferInstance fun s => .bind inferInstance fun ignoreCase =>
    .bind inferInstance fun quiet => .bind inferInstance fun handle? => ?_
  cases handle? <;> infer_instance

instance : Confined searchEnd := by unfold searchEnd; infer_instance

instance : Confined searchGetsize := by
  unfold searchGetsize
  refine .bind inferInstance fun handle => .bind inferInstance fun n? => ?_
  cases n? <;> infer_instance

instance (operation : String) : Confined (foundFile operation) := by
  unfold foundFile
  infer_instance

instance : Confined searchGetfilename := by unfold searchGetfilename; infer_instance

instance : Confined searchGetfilesize := by
  unfold searchGetfilesize
  refine .bind inferInstance fun file? => ?_
  cases file? <;> infer_instance

instance : Confined searchGetfilemtime := by unfold searchGetfilemtime; infer_instance

end Searches

/-! ## String buffers -/

section Buffers

instance : Confined bufCreate := by
  unfold bufCreate
  refine .bind inferInstance fun handle? => ?_
  cases handle? <;> infer_instance

instance : Confined bufDel := by unfold bufDel; infer_instance

instance : Confined bufGetsize := by
  unfold bufGetsize
  refine .bind inferInstance fun handle => .bind inferInstance fun n? => ?_
  cases n? <;> infer_instance

instance : Confined bufCopy := by unfold bufCopy; infer_instance

instance : Confined bufSort := by unfold bufSort; infer_instance

instance : Confined bufImplode := by unfold bufImplode; infer_instance

instance : Confined bufstrGet := by unfold bufstrGet; infer_instance

instance : Confined bufstrSet := by unfold bufstrSet; infer_instance

instance : Confined bufstrAdd := by
  unfold bufstrAdd
  refine .bind inferInstance fun handle => .bind inferInstance fun s => .bind inferInstance fun atEnd =>
    .bind inferInstance fun index? => ?_
  cases index? <;> infer_instance

instance : Confined bufstrFree := by unfold bufstrFree; infer_instance

instance (name : String) : Confined (readForBuffer name) := by
  unfold readForBuffer
  refine .bind inferInstance fun w => ?_
  dsimp only
  cases w.sandbox.readPath w.disk name with
  | error r => dsimp only; cases r.caution? <;> infer_instance
  | ok path => dsimp only; cases w.disk.read path <;> infer_instance

instance : Confined bufLoadfile := by
  unfold bufLoadfile
  refine .bind inferInstance fun s => .bind inferInstance fun handle =>
    .bind inferInstance fun content? => ?_
  cases content? <;> infer_instance

instance (handle : Int) (lines : List Bytes) : Confined (writeLines handle lines) := by
  induction lines with
  | nil => unfold writeLines; infer_instance
  | cons s rest ih => unfold writeLines; infer_instance

instance : Confined bufWritefile := by
  unfold bufWritefile
  refine .bind inferInstance fun file => .bind inferInstance fun handle =>
    .bind inferInstance fun start => .bind inferInstance fun count =>
    .bind inferInstance fun arguments => .bind inferInstance fun strings? => ?_
  cases strings? <;> infer_instance

instance (pattern : Bytes) : Confined (matcher? pattern) := by
  unfold matcher?
  dsimp only
  split
  · infer_instance
  · split <;> infer_instance

instance : Confined bufCvarlist := by unfold bufCvarlist; infer_instance

end Buffers

/-- Every builtin is confined. -/
instance confined_run (p : Primitive) : Confined (run p) := by
  cases p <;> unfold run <;> infer_instance

end QuakeVm.Builtins
