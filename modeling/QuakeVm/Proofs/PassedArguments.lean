import QuakeVm.Proofs.IndifferentBuiltins

/-!
# Arguments that were not passed

The registers of parameters keep what earlier calls put there. A builtin that is called with fewer
arguments than it has parameters finds such leftovers in the rest of them. Its signature says which
parameters can be left out: those that are marked as optional and those that three dots stand for.

No builtin looks at a parameter that was left out, with one exception. Writing a buffer to a file
always reads the place to begin at, though its signature marks that parameter as optional.
-/

namespace QuakeVm

open QuakeVm.Action Builtins

/-! ## Signatures -/

namespace Entry

/-- What stands between the commas of the list of parameters. -/
def parameterTexts (e : Entry) : List Bytes :=
  let opened := (Bytes.ofText e.signature).dropWhile (· != '('.toUInt8)
  ((opened.drop 1).takeWhile (· != ')'.toUInt8)).splitOn ','.toUInt8

/-- Whether the text of a parameter says that it has to be passed. -/
def isRequired (text : Bytes) : Bool :=
  let text := text.dropWhile (· == ' '.toUInt8)
  !text.isEmpty && !(Bytes.ofText "...").isPrefixOf text &&
    !(Bytes.ofText "optional ").isPrefixOf text

/-- The number of parameters that have to be passed. -/
def required (e : Entry) : Nat := (e.parameterTexts.filter isRequired).length

end Entry

/-- The number of parameters that whoever provides a builtin reads without a look at the number of
arguments. -/
def Provider.demanded : Provider → Nat
  | .nobody => 0
  | .both p | .server p | .client p => p.demanded

theorem Provider.demanded_eq {provider : Provider} {role : Role} {p : Primitive}
    (h : provider.for? role = some p) : provider.demanded = p.demanded := by
  cases provider <;> cases role <;> cases h <;> rfl

/-- A signature asks for every parameter that is read in any case. -/
theorem demanded_le_required : ∀ e ∈ builtinEntries, e.provider.demanded ≤ e.required := by
  decide +kernel

/-! ## Activations with other leftovers -/

/-- A register of a parameter behind the first `n`. -/
def Leftover (n i : Nat) : Prop := parameter n ≤ i ∧ i < reservedRegisters

/-- Two activations are the same, the world with its log included, but for the words of parameters
behind the first `n`. -/
def SameButLeftovers (n : Nat) (a b : Activation) : Prop :=
  ∃ registers, a.machine.registers.SameBut (Leftover n) registers ∧
    b = a.mapMachine fun m => { m with registers }

/-- What is tolerated of a call with `n` arguments. -/
def leftoversOf (n : Nat) : Tolerance := ⟨some n, False, none⟩

theorem stale_leftoversOf (n i : Nat) : (leftoversOf n).stale i ↔ Leftover n i := by
  constructor
  · rintro ⟨k, hk, h⟩
    cases hk
    exact h
  · exact fun h => ⟨n, rfl, h⟩

variable {n : Nat} {a b : Activation}

theorem similar_of_sameButLeftovers (hcount : a.machine.argumentCount = n)
    (h : SameButLeftovers n a b) : Similar (leftoversOf n) a b := by
  obtain ⟨registers, hsame, rfl⟩ := h
  refine ⟨⟨registers, a.machine.slots, a.world.log, a.machine.limit⟩, ?_, rfl⟩
  exact {
    registers := ⟨hsame.size_eq, fun i hi => hsame.get_eq i (mt (stale_leftoversOf n i).mpr hi)⟩
    count_eq := fun k hk => by cases hk; exact hcount
    slots_eq := fun _ => rfl
    sound := False.elim
    own_sound := False.elim
    log_eq := fun _ => rfl
    threshold_eq := rfl
    limit_eq := rfl }

theorem sameButLeftovers_of_similar (h : Similar (leftoversOf n) a b) : SameButLeftovers n a b := by
  obtain ⟨⟨registers, slots, log, limit⟩, hallows, rfl⟩ := h
  obtain rfl : slots = _ := hallows.slots_eq id
  obtain rfl : log = _ := hallows.log_eq id
  obtain rfl : limit = _ := hallows.limit_eq
  refine ⟨registers, ⟨hallows.registers.size_eq, fun i hi => ?_⟩, rfl⟩
  exact hallows.registers.get_eq i (mt (stale_leftoversOf n i).mp hi)

/-! ## Builtins -/

/-- **A builtin does not look at leftovers.** Called with at least the arguments that its signature
asks for, it ends in the same way whatever the parameters behind them hold: with the same result or
the same fault, and with machines and worlds that differ in nothing but those parameters. Writing a
buffer to a file with two arguments does so if the place to begin at happens to be the same. -/
theorem leftovers_ignored {e : Entry} (he : e ∈ builtinEntries) {role : Role} {p : Primitive}
    (hp : e.provider.for? role = some p) (hrequired : e.required ≤ n)
    (hcount : a.machine.argumentCount = n) (hab : SameButLeftovers n a b)
    (hstart : p = .bufWritefile → n = 2 →
      Number.toSize (b.machine.registers.float (parameter 2)) =
        Number.toSize (a.machine.registers.float (parameter 2))) :
    Agree (SameButLeftovers n) (Builtins.run p a) (Builtins.run p b) := by
  have hsimilar := similar_of_sameButLeftovers hcount hab
  have hpassed {i : Nat} (hi : i < n) : (leftoversOf n).Passed i :=
    ⟨fun k hk => by cases hk; exact hi⟩
  have hdemanded : p.demanded ≤ n := by
    rw [← Provider.demanded_eq hp]
    exact Nat.le_trans (demanded_le_required e he) hrequired
  refine Agree.mono ?_ sameButLeftovers_of_similar
  by_cases hwrite : p = .bufWritefile
  · subst hwrite
    have : (leftoversOf n).Passed 1 := hpassed hdemanded
    refine agree_bufWritefile hsimilar ?_
    -- Two arguments are demanded, so the place was passed, or exactly two were.
    rcases Nat.lt_or_ge 2 n with hlt | hle
    · obtain ⟨own, hallows, rfl⟩ := hsimilar
      exact congrArg Number.toSize
        (hallows.registers.float_eq ((hpassed hlt).not_stale (j := 0) (by omega)))
    · exact hstart rfl (Nat.le_antisymm hle hdemanded)
  · exact (indifferent_run (fun i hi => hpassed (Nat.lt_of_lt_of_le hi hdemanded)) hwrite).agree
      hsimilar

/-- A program that has just called the builtin that writes a buffer to a file, with the file and the
buffer. The buffer holds two strings, and the third and fourth parameters hold leftovers. -/
def writing (start count : Float32) : Activation where
  machine :=
    { measuringLoaded.machine with
      role := .server
      registers := (((Registers.ofGlobals #[]).setFloat (parameter 1) 1).setFloat (parameter 2)
        start).setFloat (parameter 3) count
      argumentCount := 2 }
  world :=
    { measuringLoaded.world with
      files := ⟨#[some ⟨.server, { name := "a", place := ["a"], mode := .write, size := 0 }⟩]⟩
      buffers := ⟨#[some ⟨.server, ⟨#[some [0x78], some [0x79]]⟩⟩]⟩ }

theorem sameButLeftovers_writing (s s' c c' : Float32) :
    SameButLeftovers 2 (writing s c) (writing s' c') := by
  refine ⟨(writing s' c').machine.registers, ⟨?_, fun i hi => ?_⟩, ?_⟩
  · simp only [writing, Registers.setFloat, Registers.size_set]
  · have hstart : parameter 2 ≠ i := by
      rintro rfl
      exact hi ⟨by decide, by decide⟩
    have hcount : parameter 3 ≠ i := by
      rintro rfl
      exact hi ⟨by decide, by decide⟩
    simp only [writing, Registers.setFloat, Registers.get_set_ne _ _ hstart,
      Registers.get_set_ne _ _ hcount]
  · unfold writing
    generalize measuringLoaded = loaded
    rfl

/-- Two arguments are enough to write a buffer to a file. -/
theorem two_required : ∃ e ∈ builtinEntries,
    e.provider.for? .server = some .bufWritefile ∧ e.required ≤ 2 := by decide +kernel

theorem leftovers_ignored_writing :
    (∃ e ∈ builtinEntries, e.provider.for? .server = some .bufWritefile ∧ e.required ≤ 2) ∧
    (writing 1 0).machine.argumentCount = 2 ∧ SameButLeftovers 2 (writing 1 0) (writing 1 5) ∧
      Agree (SameButLeftovers 2) (Builtins.run .bufWritefile (writing 1 0))
        (Builtins.run .bufWritefile (writing 1 5)) := by
  obtain ⟨e, he, hp, hrequired⟩ := two_required
  have hsame := sameButLeftovers_writing 1 1 0 5
  exact ⟨two_required, rfl, hsame, leftovers_ignored he hp hrequired rfl hsame fun _ _ => rfl⟩

/-- What the program has written to its file once the builtin is done. -/
def writtenFrom (a : Activation) : Option Nat :=
  (((Builtins.run .bufWritefile).final a).world.files.slot? 0).map (·.value.written)

theorem writtenFrom_eq (h : Agree (SameButLeftovers n) (Builtins.run .bufWritefile a)
    (Builtins.run .bufWritefile b)) : writtenFrom a = writtenFrom b := by
  unfold writtenFrom final
  generalize Builtins.run .bufWritefile a = r at h
  generalize Builtins.run .bufWritefile b = s at h
  cases h with
  | ok _ h | error _ h =>
    obtain ⟨_, -, rfl⟩ := h
    rfl

/-- With a leftover of zero all of the buffer is written, with a leftover of one its second string. -/
theorem leftover_start_read :
    (∃ e ∈ builtinEntries, e.provider.for? .server = some .bufWritefile ∧ e.required ≤ 2) ∧
    (writing 0 0).machine.argumentCount = 2 ∧ SameButLeftovers 2 (writing 0 0) (writing 1 0) ∧
      ¬ Agree (SameButLeftovers 2) (Builtins.run .bufWritefile (writing 0 0))
        (Builtins.run .bufWritefile (writing 1 0)) := by
  refine ⟨two_required, rfl, sameButLeftovers_writing 0 1 0 0, fun h => ?_⟩
  have hfour : writtenFrom (writing 0 0) = some 4 := by decide +kernel
  have htwo : writtenFrom (writing 1 0) = some 2 := by decide +kernel
  rw [writtenFrom_eq h, htwo] at hfour
  cases hfour

end QuakeVm
