import QuakeVm.Proofs.Runs

/-!
# Where faults are raised

What a program does knows nothing of its place: builtins, calls and the instructions leave the
current statement alone, and the faults that they end in name no function and no statement
(`Placeless`). Only fetching makes a statement the current one. So when a fault reaches the end of a
run, its place is yet to be added, and the current statement is the one that was fetched last.

`Placeless` is a class like `Confined`. Its rules are fewer, as it does not matter what is done to
the world or to registers, strings and entities.
-/

namespace QuakeVm

open Activation

/-- A fault that says what went wrong and perhaps in which builtin, but not where in the program. -/
def Fault.Unplaced (e : Fault) : Prop := ∃ cause builtin, e = .plain cause { builtin }

namespace Fault

theorem unplaced_ofCause (c : Cause) : (ofCause c).Unplaced := ⟨c, none, rfl⟩

/-- To name the builtin is not to name a place. -/
theorem Unplaced.nameBuiltin {e : Fault} (h : e.Unplaced) (slot : Nat) :
    (nameBuiltin slot e).Unplaced := by
  obtain ⟨cause, builtin, rfl⟩ := h
  unfold QuakeVm.nameBuiltin
  split
  · exact ⟨cause, some _, rfl⟩
  · exact ⟨cause, builtin, rfl⟩

end Fault

namespace Action

/-- An action that leaves the current statement alone, and whose faults do not say where they were
raised. -/
class Placeless {α : Type} (x : Action α) : Prop where
  statement_eq : ∀ a, (x.final a).machine.statement = a.machine.statement
  unplaced : ∀ {a b : Activation} {e : Fault}, x a = .error e b → e.Unplaced

section Rules

variable {α β : Type}

theorem Placeless.ok {x : Action α} (hx : Placeless x) {a b : Activation} {v : α}
    (h : x a = .ok v b) : b.machine.statement = a.machine.statement := by
  have heq := hx.statement_eq a
  rwa [final, h] at heq

theorem Placeless.error {x : Action α} (hx : Placeless x) {a b : Activation} {e : Fault}
    (h : x a = .error e b) : b.machine.statement = a.machine.statement ∧ e.Unplaced := by
  have heq := hx.statement_eq a
  rw [final, h] at heq
  exact ⟨heq, hx.unplaced h⟩

instance (v : α) : Placeless (pure v : Action α) := ⟨fun _ => rfl, nofun⟩

instance (x : Action α) (f : α → Action β) [hx : Placeless x] [hf : ∀ v, Placeless (f v)] :
    Placeless (x >>= f) where
  statement_eq a := by
    rw [final_bind]
    cases h : x a with
    | ok v b => exact ((hf v).statement_eq b).trans (hx.ok h)
    | error e b => exact (hx.error h).1
  unplaced h := by
    rcases bind_eq_error.mp h with h | ⟨v, b, -, h⟩
    · exact hx.unplaced h
    · exact (hf v).unplaced h

/-- A sequence of placeless actions is placeless. -/
theorem Placeless.bind {x : Action α} {f : α → Action β} (_ : Placeless x)
    (_ : ∀ v, Placeless (f v)) : Placeless (x >>= f) := inferInstance

instance (x : Action α) (f : α → β) [hx : Placeless x] : Placeless (f <$> x) where
  statement_eq a := by
    have hmap : (f <$> x).final a = x.final a := by
      show final (EStateM.map f x) a = _
      unfold final EStateM.map
      cases x a <;> rfl
    rw [hmap]
    exact hx.statement_eq a
  unplaced h := hx.unplaced (map_eq_error.mp h)

instance (x : Action α) [Placeless x] : Placeless (discard x) :=
  inferInstanceAs (Placeless ((fun _ => PUnit.unit) <$> x))

instance (c : Prop) [Decidable c] (x y : Action α) [Placeless x] [Placeless y] :
    Placeless (if c then x else y) := by
  split <;> infer_instance

instance (c : Cause) : Placeless (fail c : Action α) where
  statement_eq _ := rfl
  unplaced h := by
    cases h
    exact Fault.unplaced_ofCause c

instance (x : Except Cause α) : Placeless (lift x) := by
  unfold lift
  split <;> infer_instance

/-- An action that only uses the world does not end in a fault. -/
instance (priority := low) (x : Action α) [hx : Bookkeeping x] : Placeless x where
  statement_eq a := by
    obtain ⟨v, w, h, -⟩ := hx.books a
    rw [final, h]
  unplaced {a} _ _ h := by
    obtain ⟨v, w, hok, -⟩ := hx.books a
    rw [hok] at h
    cases h

end Rules

/-! ## Reading and writing -/

section Parts

instance : Placeless (get : Action Activation) := ⟨fun _ => rfl, nofun⟩

instance : Placeless machine := ⟨fun _ => rfl, nofun⟩

instance (i : Nat) : Placeless (word i) := by unfold word; infer_instance

instance (i : Nat) : Placeless (single i) := by unfold single; infer_instance

instance (i : Nat) : Placeless (vector i) := by unfold vector; infer_instance

instance : Placeless argumentCount := by unfold argumentCount; infer_instance

instance (f : World → World) : Placeless (modifyWorld f) := ⟨fun _ => rfl, nofun⟩

/-- What a program changes of its machine, apart from its calls. -/
instance (registers : Machine → Registers) (strings : Machine → StringTable)
    (entities : Machine → Entities) (slots : Machine → Array (Option Primitive))
    (kept : Machine → List Token) (count : Machine → Nat) (on : Machine → Bool) :
    Placeless (modifyMachine fun m => { m with
      registers := registers m
      strings := strings m
      entities := entities m
      slots := slots m
      tokens := kept m
      argumentCount := count m
      tracing := on m }) :=
  ⟨fun _ => rfl, nofun⟩

instance (f : Registers → Registers) : Placeless (modifyRegisters f) := by
  unfold modifyRegisters
  infer_instance

instance (h : Int) : Placeless (text h) := by
  unfold text
  refine .bind inferInstance fun a => ?_
  dsimp only
  split <;> infer_instance

instance (s : Bytes) : Placeless (temporary s) := by
  unfold temporary
  dsimp only
  split <;> infer_instance

instance (parts : List Bytes) : Placeless (zone parts) := by unfold zone; infer_instance

instance (h : Int) : Placeless (unzone h) := by
  unfold unzone
  refine .bind inferInstance fun m => ?_
  dsimp only
  split <;> infer_instance

instance {α : Type} (read : Nat → Action α) [∀ n, Placeless (read n)] (n : Nat) :
    Placeless (argumentsFrom read n) := by
  have hread (n count : Nat) : Placeless (readArguments read n count) := by
    induction count generalizing n with
    | zero => unfold readArguments; infer_instance
    | succ count ih => unfold readArguments; infer_instance
  unfold argumentsFrom
  infer_instance

instance (n : Nat) : Placeless (wordArgument n) := by unfold wordArgument; infer_instance

instance (n : Nat) : Placeless (singleArgument n) := by unfold singleArgument; infer_instance

instance (n : Nat) : Placeless (textArgument n) := by unfold textArgument; infer_instance

instance (w : Int32) : Placeless (returnWord w) := by unfold returnWord; infer_instance

instance (v : Float32) : Placeless (returnSingle v) := by unfold returnSingle; infer_instance

instance (s : Bytes) : Placeless (returnText s) := by unfold returnText; infer_instance

instance (s : Option Bytes) : Placeless (returnText? s) := by
  cases s with
  | none => unfold returnText? returnNull; infer_instance
  | some s => unfold returnText?; infer_instance

end Parts

end Action

/-! ## Builtins -/

namespace Builtins

open QuakeVm.Action

instance (name text : String) : Placeless (setVariable name text) where
  statement_eq a := by
    obtain ⟨registers, strings, heq⟩ := sameButGlobals_assignCvar a name text
    rw [final, setVariable_apply, heq]
  unplaced h := by
    rw [setVariable_apply] at h
    cases h

instance (name : String) : Placeless (askExtension name) := ⟨fun _ => rfl, nofun⟩

instance (n : Nat) : Placeless (characterArgument n) := by
  unfold characterArgument integerArgument
  infer_instance

instance (notes : List Format.Note) : Placeless (recordNotes notes) := by
  induction notes with
  | nil => unfold recordNotes; infer_instance
  | cons note rest ih =>
    cases note with
    | stringRead n => unfold recordNotes; infer_instance
    | malformed text => unfold recordNotes Format.Note.caution?; dsimp only; infer_instance

instance (type : ValueType) (words : List Int32) : Placeless (valueText type words) := by
  unfold valueText
  cases type <;> infer_instance

instance (number : Int) (all fields : List Definition) :
    Placeless (fieldLines number all fields) := by
  induction fields with
  | nil => unfold fieldLines; infer_instance
  | cons d rest ih => unfold fieldLines; infer_instance

instance (handle : Int) (lines : List Bytes) : Placeless (writeLines handle lines) := by
  induction lines with
  | nil => unfold writeLines; infer_instance
  | cons s rest ih => unfold writeLines; infer_instance

/-- **No builtin knows its place.** Each is put together from what is above by doing one thing after
the other and by distinguishing cases, and that is all there is to look at. -/
instance placeless_run (p : Primitive) : Placeless (run p) := by
  cases p <;>
    simp only [run, integerArgument, flagArgument, vectorArgument, textsFrom, textFrom,
      returnInteger, returnFlag, returnVector, returnNull,
      -- numbers and vectors
      unary, binary, random, foldArguments, bound, vlen, normalize, vectoyaw, vectoangles, ftoi, itof,
      -- strings and tokens
      returnString, mapText, ftos, vtos, etos, stof, stov, stoi, itos, stoh, htos, strlen, strcat,
      substring, strzone, strunzone, optionalSize, strstrofs, str2chr, chr2str,
      strconv, strpad, strncmp, strcasecmp, strreplace, infoadd, infoget, crc16, strlennocol,
      stringwidth, strftime, sprintf, setTokens, tokenize, tokenizebyseparator, tokenArgument, argv,
      argvIndex,
      -- entities, the console and variables
      spawn, remove, nextent, eprint, nameArgument, cvar, cvarText, cvarType, cvarSet, print, dprint,
      localcmd, checkcommand, raise, break_, trace, checkextension, builtinsupported, checkbuiltin,
      -- files, searches and buffers
      fopen, fclose, fgets, fputs, searchBegin, searchEnd, searchGetsize, foundFile,
      searchGetfilename, searchGetfilesize, searchGetfilemtime, bufCreate, bufDel, bufGetsize, bufCopy,
      bufSort, bufImplode, bufstrGet, bufstrSet, bufstrAdd, bufstrFree, readForBuffer, bufLoadfile,
      bufWritefile, matcher?, bufCvarlist] <;>
    repeat' first | infer_instance | split | refine .bind ?_ fun _ => ?_

end Builtins

open QuakeVm.Action

/-! ## Calls -/

section Calls

instance (slot : Nat) (name? : Option String) : Placeless (bindSlot slot name?) := by
  unfold bindSlot
  refine .bind inferInstance fun m => ?_
  dsimp only
  repeat' first | infer_instance | split | refine .bind ?_ fun _ => ?_

instance : Placeless bindPending := by
  unfold bindPending
  refine .bind inferInstance fun m => ?_
  dsimp only
  split <;> infer_instance

instance (slot : Nat) : Placeless (dispatch slot) := by
  unfold dispatch
  refine .bind inferInstance fun m => ?_
  split <;> infer_instance

/-- The name of the builtin is added to a fault, and nothing else. -/
instance (slot : Nat) : Placeless (callBuiltin slot) := by
  have hrun : Placeless (do Builtins.run (← dispatch slot)) := inferInstance
  unfold callBuiltin
  refine .bind inferInstance fun m => .bind inferInstance fun _ => ⟨fun a => ?_, fun {a b e} h => ?_⟩
  · rw [final_tryCatch]
    cases h : (do Builtins.run (← dispatch slot) : Action Unit) a with
    | ok _ b => exact hrun.ok h
    | error e b => exact (hrun.error h).1
  · change EStateM.tryCatch _ _ a = _ at h
    unfold EStateM.tryCatch at h
    cases hr : (do Builtins.run (← dispatch slot) : Action Unit) a with
    | ok _ c => rw [hr] at h; cases h
    | error e' c =>
      rw [hr] at h
      cases h
      exact (hrun.unplaced hr).nameBuiltin slot

/-- A call leaves the current statement, which is that of the caller. -/
theorem Machine.statement_of_enter {m m' : Machine} {number resume s : Int}
    (h : m.enter number resume = .ok (s, m')) : m'.statement = m.statement := by
  unfold enter at h
  split at h
  · cases h
  · repeat' split at h
    all_goals cases h
    rfl

theorem Machine.statement_of_leave {m m' : Machine} {s : Int} (h : m.leave = .ok (s, m')) :
    m'.statement = m.statement := by
  unfold leave at h
  split at h
  · cases h
  · repeat' split at h
    all_goals cases h
    rfl

/-- Entering and leaving functions are placeless. -/
theorem placeless_switchMachine {f : Machine → Except Cause (Int × Machine)}
    (h : ∀ {m m' : Machine} {s : Int}, f m = .ok (s, m') → m'.statement = m.statement) :
    Placeless (switchMachine f) := by
  refine ⟨fun a => ?_, fun {a b e} he => ?_⟩
  · unfold final
    cases hr : switchMachine f a with
    | ok s b =>
      obtain ⟨m, hm, rfl⟩ := switchMachine_eq_ok.mp hr
      exact h hm
    | error e b => rw [switchMachine_eq_error hr]
  · unfold switchMachine at he
    rw [bind_apply, machine_apply] at he
    rcases bind_eq_error.mp he with hl | ⟨r, c, -, hr⟩
    · exact Placeless.unplaced hl
    · cases hr

instance (number resume : Int) : Placeless (enterFunction number resume) :=
  placeless_switchMachine (f := (·.enter number resume)) Machine.statement_of_enter

instance : Placeless leaveFunction :=
  placeless_switchMachine (f := Machine.leave) Machine.statement_of_leave

instance (number next : Int) (arguments : Nat) :
    Placeless (callFunction number arguments next) := by
  unfold callFunction
  refine .bind inferInstance fun _ => .bind inferInstance fun m => .bind inferInstance fun f => ?_
  split <;> infer_instance

end Calls

/-! ## Statements -/

section Statements

instance (entities : Entities) : Placeless (setEntities entities) := by
  unfold setEntities
  infer_instance

instance (pointer target n : Nat) : Placeless (loadWords pointer target n) := by
  induction n generalizing pointer target with
  | zero => unfold loadWords; infer_instance
  | succ n ih => unfold loadWords; infer_instance

instance (source pointer n : Nat) : Placeless (storeWords source pointer n) := by
  induction n generalizing source pointer with
  | zero => unfold storeWords; infer_instance
  | succ n ih => unfold storeWords; infer_instance

instance (frame think : Nat) : Placeless (setState frame think) := by
  unfold setState setField
  refine .bind inferInstance fun w => .bind inferInstance fun m => ?_
  split <;> infer_instance

/-- No instruction knows its place. -/
instance (exitDepth : Nat) (next : Int) (i : Instruction) :
    Placeless (perform exitDepth next i) := by
  cases i with
  | leave value => rw [perform_leave]; unfold returnValue; split <;> infer_instance
  | _ => unfold perform; simp only [isEmptyText, fieldPointer]; infer_instance

/-- The statement that is the current one when the statement at an index is fetched from a machine.
-/
def Machine.fetched (m : Machine) (index : Int) : Int :=
  if (Program.entry? m.program.statements index).isSome then index else m.statement

/-- A fetch that fails has noted the statement if there is one. -/
theorem fetch_eq_error {index : Int} {a b : Activation} {e : Fault}
    (h : fetch index a = .error e b) :
    b.machine.statement = a.machine.fetched index ∧ e.Unplaced := by
  unfold fetch at h
  rw [bind_apply, machine_apply] at h
  dsimp only at h
  cases hentry : Program.entry? a.machine.program.statements index with
  | none =>
    rw [hentry] at h
    cases h
    exact ⟨by simp [Machine.fetched, hentry], Fault.unplaced_ofCause _⟩
  | some st =>
    rw [hentry] at h
    dsimp only at h
    rw [bind_apply, modifyMachine_apply] at h
    cases hop : Opcode.ofNumber? st.op with
    | none =>
      rw [hop] at h
      cases h
      exact ⟨by simp [Machine.fetched, hentry, mapMachine], Fault.unplaced_ofCause _⟩
    | some op =>
      rw [hop] at h
      dsimp only at h
      rw [bind_apply, machine_apply] at h
      dsimp only at h
      split at h <;> cases h

/-- A step makes its statement the current one. -/
theorem statement_of_step {exitDepth : Nat} {s : Int} {a b : Activation} {r : Option Int}
    (h : step exitDepth s a = .ok r b) : b.machine.statement = s := by
  obtain ⟨i, a₁, hfetch, hperform⟩ := bind_eq_ok.mp h
  obtain ⟨-, -, -, -, -, hmachine⟩ := fetch_eq_ok hfetch
  rw [Placeless.ok inferInstance hperform, hmachine]

/-- A step that ends in a fault has made its statement the current one, if there is one. The fault
does not say so. -/
theorem unplaced_of_step {exitDepth : Nat} {s : Int} {a b : Activation} {e : Fault}
    (h : step exitDepth s a = .error e b) :
    b.machine.statement = a.machine.fetched s ∧ e.Unplaced := by
  rcases bind_eq_error.mp h with hfetch | ⟨i, a₁, hfetch, hperform⟩
  · exact fetch_eq_error hfetch
  · obtain ⟨hstatement, hunplaced⟩ := Placeless.error inferInstance hperform
    obtain ⟨st, op, hst, -, -, hmachine⟩ := fetch_eq_ok hfetch
    refine ⟨?_, hunplaced⟩
    rw [hstatement, hmachine, Machine.fetched, hst]
    rfl

end Statements

end QuakeVm
