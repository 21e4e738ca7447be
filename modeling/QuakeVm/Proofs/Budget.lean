import QuakeVm.Proofs.LazyBinding

/-!
# The limit of a run

A machine has a limit of statements, at which it stops a run. No statement looks at the limit, so a
run that is not stopped is the same under every larger limit. A run that comes to its end after `n`
statements comes to its end under exactly the limits above `n`. Under any other limit `l` it is stopped
when it has executed `l - 1` statements: the statement with the number of the limit is not executed any
more.

The count is that of a run which executes the same steps as `runFrom` and counts them (`tally`).
-/

namespace QuakeVm

open QuakeVm.Action Activation

/-! ## Machines with different limits -/

def Activation.withLimit (a : Activation) (n : Nat) : Activation :=
  a.mapMachine fun m => { m with limit := n }

/-- All may be the same but the limit, which is `n` in the second machine. -/
def limited (n : Nat) : Tolerance := ⟨none, False, some n⟩

instance (n : Nat) : (limited n).AllPassed := ⟨rfl⟩

theorem similar_limited_iff {n : Nat} {a b : Activation} :
    Similar (limited n) a b ↔ b = a.withLimit n := by
  constructor
  · rintro ⟨own, hallows, rfl⟩
    show ⟨a.machine.vary own, a.world.vary own⟩ = a.withLimit n
    unfold Machine.vary World.vary
    rw [hallows.registers_eq, hallows.slots_eq id, hallows.log_eq id, hallows.limit_eq]
    rfl
  · rintro rfl
    refine ⟨⟨a.machine.registers, a.machine.slots, a.world.log, n⟩, ?_, rfl⟩
    exact {
      registers := .refl _ _
      count_eq := nofun
      slots_eq := fun _ => rfl
      sound := False.elim
      own_sound := False.elim
      log_eq := fun _ => rfl
      threshold_eq := rfl
      limit_eq := rfl }

section Statements

variable {n : Nat} {α : Type}

theorem agree_withLimit (x : Action α) [hx : Indifferent (limited n) x] (a : Activation) :
    Agree (fun b c => c = b.withLimit n) (x a) (x (a.withLimit n)) :=
  Agree.mono (hx.agree (similar_limited_iff.mpr rfl)) similar_limited_iff.mp

theorem withLimit_eq_ok {x : Action α} [Indifferent (limited n) x] {v : α} {a b : Activation}
    (h : x a = .ok v b) : x (a.withLimit n) = .ok v (b.withLimit n) := by
  have hagree := agree_withLimit (n := n) x a
  rw [h] at hagree
  generalize x (a.withLimit n) = r at hagree ⊢
  cases hagree with
  | ok v hc => rw [hc]

/-- An action that looks at the machine, but not at its limit. -/
theorem indifferent_of_unlimited {f : Machine → Action α}
    (hread : ∀ m, f { m with limit := n } = f m) (hf : ∀ m, Indifferent (limited n) (f m)) :
    Indifferent (limited n) (machine >>= f) where
  agree := by
    intro a b h
    obtain rfl := similar_limited_iff.mp h
    have hnext : (machine >>= f) (a.withLimit n) = f a.machine (a.withLimit n) :=
      congrFun (hread a.machine) _
    rw [hnext]
    exact (hf a.machine).agree h

/-- A change of the machine that has nothing to do with its limit. -/
theorem indifferent_modify_unlimited {f : Machine → Machine}
    (hf : ∀ m, f { m with limit := n } = { f m with limit := n }) :
    Indifferent (limited n) (modifyMachine f) where
  agree := by
    intro a b h
    obtain rfl := similar_limited_iff.mp h
    refine .ok () (similar_limited_iff.mpr ?_)
    show (⟨f { a.machine with limit := n }, a.world⟩ : Activation) = _
    rw [hf]
    rfl

instance (slot : Nat) (name? : Option String) : Indifferent (limited n) (bindSlot slot name?) := by
  have hset : ∀ p : Primitive, Indifferent (limited n)
      (modifyMachine fun m => { m with slots := m.slots.setIfInBounds slot (some p) }) :=
    fun p => indifferent_modify_unlimited fun _ => rfl
  unfold bindSlot
  refine indifferent_of_unlimited (fun _ => rfl) fun m => ?_
  dsimp only
  split
  · -- Nothing after the fault is reached.
    exact .bind inferInstance fun _ => ⟨fun h => .error _ h⟩
  · split
    · infer_instance
    · refine .bind (hset _) fun _ => ?_
      split
      · infer_instance
      · exact .world (fun _ _ => rfl) fun w => inferInstance

instance : Indifferent (limited n) bindPending := by
  unfold bindPending
  refine indifferent_of_unlimited (fun _ => rfl) fun m => ?_
  dsimp only
  split <;> infer_instance

instance (slot : Nat) : Indifferent (limited n) (dispatch slot) := by
  unfold dispatch
  refine indifferent_of_unlimited (fun _ => rfl) fun m => ?_
  split <;> infer_instance

instance (slot : Nat) : Indifferent (limited n) (callBuiltin slot) := by
  have hrun := Builtins.indifferent_run_allPassed (t := limited n)
  unfold callBuiltin
  exact indifferent_of_unlimited (fun _ => rfl) fun m => inferInstance

instance (number next : Int) (arguments : Nat) :
    Indifferent (limited n) (callFunction number arguments next) := by
  unfold callFunction
  refine .bind inferInstance fun _ => indifferent_of_unlimited (fun _ => rfl) fun m => ?_
  refine .bind inferInstance fun f => ?_
  split <;> infer_instance

instance (exitDepth : Nat) (s : Int) : Indifferent (limited n) (step exitDepth s) := by
  unfold step
  refine .bind inferInstance fun i => ?_
  by_cases hcall : ∃ function arguments, i = .call function arguments
  · obtain ⟨function, arguments, rfl⟩ := hcall
    unfold perform
    infer_instance
  · refine indifferent_perform exitDepth (s + 1) fun function arguments hi => ?_
    exact hcall ⟨function, arguments, hi⟩

instance (f : Fault) : Indifferent (limited n) (unwind f) := by
  have hreset : Indifferent (limited n) (modifyMachine (·.reset)) :=
    indifferent_modify_unlimited fun _ => rfl
  unfold unwind
  exact indifferent_of_unlimited (fun _ => rfl) fun m => inferInstance

instance (m : Machine) (f : Function) (slot : Nat) :
    Indifferent (limited n) (executeBuiltin m f slot) := by
  unfold executeBuiltin
  infer_instance

end Statements

/-! ## Runs that are not stopped -/

/-- A run ended because it was stopped at a limit. -/
def Stopped (r : EStateM.Result Fault Activation Unit) : Prop :=
  ∃ limit e b, r = .error e b ∧ e.cause = .runaway limit

/-- With the limit goes the number of steps that may follow, `m` under one limit and `m'` under the
other. -/
theorem runFrom_withLimit {exitDepth m m' n : Nat} {s : Int} {a : Activation} (hle : m ≤ m')
    (h : ¬ Stopped (runFrom exitDepth m s a)) :
    Agree (fun b c => c = b.withLimit n) (runFrom exitDepth m s a)
      (runFrom exitDepth m' s (a.withLimit n)) := by
  induction m generalizing m' s a with
  | zero => exact absurd ⟨_, _, _, rfl, rfl⟩ h
  | succ m ih =>
    obtain ⟨m', rfl⟩ : ∃ k, m' = k + 1 := ⟨m' - 1, by omega⟩
    have hstep := agree_withLimit (n := n) (step exitDepth s) a
    unfold runFrom at h ⊢
    rw [bind_apply] at h
    rw [bind_apply, bind_apply]
    generalize step exitDepth s a = r at h hstep
    generalize step exitDepth s (a.withLimit n) = r' at hstep
    cases hstep with
    | error e hb => exact .error e hb
    | ok next? hb =>
      subst hb
      cases next? with
      | none => exact .ok () rfl
      | some s => exact ih (by omega) h

theorem runFunction_withLimit {number : Int} {n : Nat} {a : Activation} (hle : a.machine.limit ≤ n)
    (h : ¬ Stopped (runFunction number a)) :
    Agree (fun b c => c = b.withLimit n) (runFunction number a)
      (runFunction number (a.withLimit n)) := by
  have henter := agree_withLimit (n := n) (enterFunction number (-1)) a
  rw [runFunction_apply, bind_apply] at h
  rw [runFunction_apply, runFunction_apply, bind_apply, bind_apply]
  cases hs : enterFunction number (-1) a with
  | error e b =>
    rw [hs] at henter
    generalize enterFunction number (-1) (a.withLimit n) = r at henter
    cases henter with
    | error e hc => exact .error e hc
  | ok s b =>
    rw [hs] at h henter
    generalize enterFunction number (-1) (a.withLimit n) = r at henter
    cases henter with
    | ok s hc =>
      subst hc
      have hlimit := limit_of_enterFunction hs
      exact runFrom_withLimit (show b.machine.limit - 1 ≤ n - 1 by omega) h

/-- A fault that is unwound keeps its cause. -/
theorem unwind_eq_error (f : Fault) (a : Activation) :
    ∃ e b, unwind f a = .error e b ∧ e.cause = f.cause := by
  refine ⟨_, _, rfl, ?_⟩
  cases f <;> rfl

theorem execute_of_ok {number : Int} {f : Function} {a b : Activation}
    (hf : a.machine.program.function number = .ok f) (hslot : f.slot? = none)
    (h : runFunction number a = .ok () b) : execute number a = .ok () b := by
  rw [execute_of_code hf hslot, EStateM.tryCatch, h]

theorem execute_of_error {number : Int} {f : Function} {a b : Activation} {e : Fault}
    (hf : a.machine.program.function number = .ok f) (hslot : f.slot? = none)
    (h : runFunction number a = .error e b) : execute number a = unwind e b := by
  rw [execute_of_code hf hslot, EStateM.tryCatch, h]
  rfl

/-- **A run that is not stopped does not depend on its limit.** Under a larger limit a function is
executed in the same way: with the same result or the same fault, its traceback included, and what
changes is the same. -/
theorem limit_raised {number : Int} {n : Nat} {a : Activation} (hle : a.machine.limit ≤ n)
    (h : ¬ Stopped (execute number a)) :
    Agree (fun b c => c = b.withLimit n) (execute number a) (execute number (a.withLimit n)) := by
  cases hf : a.machine.program.function number with
  | error c =>
    rw [execute_apply, execute_apply]
    show Agree _ _ ((lift (a.machine.program.function number) >>= _) _)
    rw [hf]
    exact .error _ rfl
  | ok f =>
    cases hslot : f.slot? with
    | some slot =>
      have hbuiltin := agree_withLimit (n := n) (executeBuiltin a.machine f slot) a
      rw [execute_of_slot hf hslot, execute_of_slot (a := a.withLimit n) hf hslot]
      exact hbuiltin
    | none =>
      have hf' : (a.withLimit n).machine.program.function number = .ok f := hf
      have hrun : ¬ Stopped (runFunction number a) := by
        rintro ⟨limit, e, b, hr, he⟩
        obtain ⟨e', b', hunwind, hcause⟩ := unwind_eq_error e b
        refine h ⟨limit, e', b', ?_, hcause.trans he⟩
        rw [execute_of_error hf hslot hr, hunwind]
      rw [execute_of_code hf hslot, execute_of_code hf' hslot]
      refine Agree.tryCatch (runFunction_withLimit hle hrun) fun e {b c} hc => ?_
      subst hc
      exact agree_withLimit (unwind e) b

theorem limit_raised_overlapping :
    overlappingLimited.machine.limit ≤ 20 ∧ ¬ Stopped (execute 1 overlappingLimited) ∧
      Agree (fun b c => c = b.withLimit 20) (execute 1 overlappingLimited)
        (execute 1 (overlappingLimited.withLimit 20)) := by
  have hle : overlappingLimited.machine.limit ≤ 20 := by decide
  have hok : (execute 1 overlappingLimited matches .ok _ _) := by decide +kernel
  have hrun : ¬ Stopped (execute 1 overlappingLimited) := by
    rintro ⟨limit, e, b, hr, -⟩
    rw [hr] at hok
    cases hok
  exact ⟨hle, hrun, limit_raised hle hrun⟩

/-! ## Counting statements -/

/-- A run of at most `n` steps: the number of statements that it executes, and how it ends. -/
def tally (exitDepth : Nat) :
    Nat → Int → Activation → Nat × EStateM.Result Fault Activation Unit
  | 0, s, a => (0, runFrom exitDepth 0 s a)
  | n + 1, s, a =>
    match step exitDepth s a with
    | .error e b => (1, .error e b)
    | .ok none b => (1, .ok () b)
    | .ok (some s) b =>
      let (count, result) := tally exitDepth n s b
      (count + 1, result)

/-- Counting changes nothing. -/
theorem tally_snd (exitDepth n : Nat) (s : Int) (a : Activation) :
    (tally exitDepth n s a).2 = runFrom exitDepth n s a := by
  induction n generalizing s a with
  | zero => rfl
  | succ n ih =>
    unfold tally runFrom
    rw [bind_apply]
    cases step exitDepth s a with
    | error e b => rfl
    | ok next? b =>
      cases next? with
      | none => rfl
      | some s => exact ih s b

/-- The run of a function: the number of statements that it executes, and how it ends. -/
def tallyFunction (number : Int) (a : Activation) :
    Nat × EStateM.Result Fault Activation Unit :=
  match enterFunction number (-1) a with
  | .error e b => (0, .error e b)
  | .ok s b => tally a.machine.depth (b.machine.limit - 1) s b

theorem tallyFunction_snd (number : Int) (a : Activation) :
    (tallyFunction number a).2 = runFunction number a := by
  rw [runFunction_apply, bind_apply]
  unfold tallyFunction
  cases enterFunction number (-1) a with
  | error e b => rfl
  | ok s b => exact tally_snd _ _ s b

/-- The number of statements that are executed when a function is. A builtin has no statements. -/
def executed (number : Int) (a : Activation) : Nat :=
  match a.machine.program.function number with
  | .error _ => 0
  | .ok f => if f.slot?.isSome then 0 else (tallyFunction number a).1

/-- A run that comes to its end takes a first step, which ends it or is followed by the rest. -/
theorem tally_eq_ok {exitDepth m k : Nat} {s : Int} {a b : Activation}
    (h : tally exitDepth m s a = (k, .ok () b)) :
    (k = 1 ∧ step exitDepth s a = .ok none b) ∨
      ∃ m' k' s' c, k = k' + 1 ∧ step exitDepth s a = .ok (some s') c ∧
        tally exitDepth m' s' c = (k', .ok () b) := by
  cases m with
  | zero => cases h
  | succ m =>
    unfold tally at h
    cases hstep : step exitDepth s a with
    | error e c => rw [hstep] at h; cases h
    | ok next? c =>
      rw [hstep] at h
      cases next? with
      | none => cases h; exact .inl ⟨rfl, rfl⟩
      | some s' =>
        obtain ⟨hk, hresult⟩ := Prod.mk.inj h
        exact .inr ⟨m, _, s', c, hk.symm, rfl, Prod.ext rfl hresult⟩

/-- A run that comes to its end after `k` statements does so wherever it may take as many steps. -/
theorem tally_of_le {exitDepth m m' n k : Nat} {s : Int} {a b : Activation}
    (h : tally exitDepth m s a = (k, .ok () b)) (hle : k ≤ m') :
    tally exitDepth m' s (a.withLimit n) = (k, .ok () (b.withLimit n)) := by
  induction k generalizing m m' s a with
  | zero => rcases tally_eq_ok h with ⟨hk, -⟩ | ⟨_, _, _, _, hk, -⟩ <;> cases hk
  | succ k ih =>
    obtain ⟨m', rfl⟩ : ∃ j, m' = j + 1 := ⟨m' - 1, by omega⟩
    unfold tally
    rcases tally_eq_ok h with ⟨hk, hstep⟩ | ⟨m, k, s', c, hk, hstep, hrest⟩
    · cases hk
      rw [withLimit_eq_ok hstep]
    · cases hk
      rw [withLimit_eq_ok hstep]
      dsimp only
      rw [ih hrest (by omega)]

/-- Where it may take fewer it is stopped, and has executed as many statements as it may. -/
theorem tally_of_lt {exitDepth m m' n k : Nat} {s : Int} {a b : Activation}
    (h : tally exitDepth m s a = (k, .ok () b)) (hlt : m' < k) :
    ∃ c, tally exitDepth m' s (a.withLimit n) = (m', .error (Cause.runaway n) c) := by
  induction m' generalizing m k s a with
  | zero => exact ⟨_, rfl⟩
  | succ m' ih =>
    rcases tally_eq_ok h with ⟨hk, hstep⟩ | ⟨m, k, s', c, hk, hstep, hrest⟩
    · omega
    · obtain ⟨d, hd⟩ := ih hrest (by omega)
      refine ⟨d, ?_⟩
      unfold tally
      rw [withLimit_eq_ok hstep]
      dsimp only
      rw [hd]

/-! ## The limits under which a run comes to its end -/

/-- A run of a function that comes to its end has entered the function. -/
theorem tallyFunction_eq_ok {number : Int} {k : Nat} {a b : Activation}
    (h : tallyFunction number a = (k, .ok () b)) :
    ∃ s c, enterFunction number (-1) a = .ok s c ∧
      tally a.machine.depth (a.machine.limit - 1) s c = (k, .ok () b) := by
  unfold tallyFunction at h
  cases henter : enterFunction number (-1) a with
  | error e c => rw [henter] at h; cases h
  | ok s c =>
    rw [henter] at h
    rw [← limit_of_enterFunction henter]
    exact ⟨s, c, rfl, h⟩

theorem tallyFunction_withLimit {number s : Int} {n : Nat} {a b : Activation}
    (h : enterFunction number (-1) a = .ok s b) :
    tallyFunction number (a.withLimit n) = tally a.machine.depth (n - 1) s (b.withLimit n) := by
  unfold tallyFunction
  rw [withLimit_eq_ok h]
  rfl

/-- A function that is executed to its end is a builtin, or its run comes to its end. -/
theorem execute_eq_ok {number : Int} {a b : Activation} (h : execute number a = .ok () b) :
    ∃ f, a.machine.program.function number = .ok f ∧
      ((∃ slot, f.slot? = some slot ∧ executeBuiltin a.machine f slot a = .ok () b) ∨
        (f.slot? = none ∧ runFunction number a = .ok () b)) := by
  cases hf : a.machine.program.function number with
  | error c =>
    rw [execute_apply, hf] at h
    cases h
  | ok f =>
    refine ⟨f, rfl, ?_⟩
    cases hslot : f.slot? with
    | some slot => exact .inl ⟨slot, rfl, by rw [← execute_of_slot hf hslot, h]⟩
    | none =>
      refine .inr ⟨rfl, ?_⟩
      cases hrun : runFunction number a with
      | ok _ c => rw [← h, execute_of_ok hf hslot hrun]
      | error e c =>
        obtain ⟨e', c', hunwind, -⟩ := unwind_eq_error e c
        rw [execute_of_error hf hslot hrun, hunwind] at h
        cases h

theorem executed_of_slot {number : Int} {f : Function} {slot : Nat} {a : Activation}
    (hf : a.machine.program.function number = .ok f) (hslot : f.slot? = some slot) :
    executed number a = 0 := by
  simp [executed, hf, hslot]

theorem executed_of_code {number : Int} {f : Function} {a : Activation}
    (hf : a.machine.program.function number = .ok f) (hslot : f.slot? = none) :
    executed number a = (tallyFunction number a).1 := by
  simp [executed, hf, hslot]

section Limits

variable {number : Int} {n : Nat} {a b : Activation}

/-- The run of a function that comes to its end, with its count. -/
theorem tallyFunction_of_ok {f : Function} (hf : a.machine.program.function number = .ok f)
    (hslot : f.slot? = none) (h : runFunction number a = .ok () b) :
    tallyFunction number a = (executed number a, .ok () b) :=
  Prod.ext (executed_of_code hf hslot).symm ((tallyFunction_snd number a).trans h)

theorem execute_of_executed_lt (h : execute number a = .ok () b) (hlt : executed number a < n) :
    execute number (a.withLimit n) = .ok () (b.withLimit n) ∧
      executed number (a.withLimit n) = executed number a := by
  obtain ⟨f, hf, ⟨slot, hslot, hbuiltin⟩ | ⟨hslot, hrun⟩⟩ := execute_eq_ok h
  · have hf' : (a.withLimit n).machine.program.function number = .ok f := hf
    rw [execute_of_slot hf' hslot, executed_of_slot hf hslot, executed_of_slot hf' hslot]
    exact ⟨withLimit_eq_ok hbuiltin, rfl⟩
  · have hf' : (a.withLimit n).machine.program.function number = .ok f := hf
    obtain ⟨s, c, henter, htally⟩ := tallyFunction_eq_ok (tallyFunction_of_ok hf hslot hrun)
    have htally' : tallyFunction number (a.withLimit n) =
        (executed number a, .ok () (b.withLimit n)) := by
      rw [tallyFunction_withLimit henter]
      exact tally_of_le htally (by omega)
    refine ⟨execute_of_ok hf' hslot ?_, ?_⟩
    · rw [← tallyFunction_snd, htally']
    · rw [executed_of_code hf' hslot, htally']

theorem execute_of_le_executed (h : execute number a = .ok () b) (hn : 1 ≤ n)
    (hle : n ≤ executed number a) :
    ∃ e c, execute number (a.withLimit n) = .error e c ∧ e.cause = .runaway n ∧
      executed number (a.withLimit n) = n - 1 := by
  obtain ⟨f, hf, ⟨slot, hslot, -⟩ | ⟨hslot, hrun⟩⟩ := execute_eq_ok h
  · rw [executed_of_slot hf hslot] at hle
    omega
  · have hf' : (a.withLimit n).machine.program.function number = .ok f := hf
    obtain ⟨s, c, henter, htally⟩ := tallyFunction_eq_ok (tallyFunction_of_ok hf hslot hrun)
    have hlt : n - 1 < executed number a := by omega
    obtain ⟨d, hd⟩ := tally_of_lt (n := n) htally hlt
    rw [← tallyFunction_withLimit henter] at hd
    have hrun' : runFunction number (a.withLimit n) = .error (Cause.runaway n) d := by
      rw [← tallyFunction_snd, hd]
    obtain ⟨e, d', hunwind, hcause⟩ := unwind_eq_error (Cause.runaway n) d
    refine ⟨e, d', ?_, hcause, ?_⟩
    · rw [execute_of_error hf' hslot hrun', hunwind]
    · rw [executed_of_code hf' hslot, hd]

/-- **A run that comes to its end needs a limit above the number of its statements.** Under any such
limit it comes to the same end. Under a smaller one it is stopped, with the fault that says so, and it
has executed one statement less than the limit. -/
theorem limit_exceeds_count (h : execute number a = .ok () b) (hn : 1 ≤ n) :
    ((∃ c, execute number (a.withLimit n) = .ok () c) ↔ executed number a < n) ∧
      (executed number a < n → execute number (a.withLimit n) = .ok () (b.withLimit n) ∧
        executed number (a.withLimit n) = executed number a) ∧
      (n ≤ executed number a → ∃ e c, execute number (a.withLimit n) = .error e c ∧
        e.cause = .runaway n ∧ executed number (a.withLimit n) = n - 1) := by
  refine ⟨⟨?_, fun hlt => ⟨_, (execute_of_executed_lt h hlt).1⟩⟩, execute_of_executed_lt h,
    execute_of_le_executed h hn⟩
  rintro ⟨c, hc⟩
  by_contra hle
  obtain ⟨e, d, herror, -⟩ := execute_of_le_executed h hn (Nat.not_lt.mp hle)
  rw [hc] at herror
  cases herror

end Limits

theorem limit_exceeds_count_overlapping :
    ∃ b, execute 1 overlappingLimited = .ok () b ∧ executed 1 overlappingLimited = 4 ∧
      execute 1 (overlappingLimited.withLimit 5) = .ok () (b.withLimit 5) ∧
      ∃ e c, execute 1 (overlappingLimited.withLimit 4) = .error e c ∧ e.cause = .runaway 4 ∧
        executed 1 (overlappingLimited.withLimit 4) = 3 := by
  have hcount : executed 1 overlappingLimited = 4 := by decide +kernel
  have hok : (execute 1 overlappingLimited matches .ok _ _) := by decide +kernel
  cases hrun : execute 1 overlappingLimited with
  | error e b =>
    rw [hrun] at hok
    cases hok
  | ok _ b =>
    have hfive := (limit_exceeds_count (n := 5) hrun (by decide)).2.1 (by rw [hcount]; decide)
    have hfour := (limit_exceeds_count (n := 4) hrun (by decide)).2.2 (Nat.le_of_eq hcount.symm)
    exact ⟨b, rfl, hcount, hfive.1, hfour⟩

/-- The program executes four statements, yet it is stopped under a limit of four. -/
theorem stopped_at_count :
    (execute 1 overlappingLimited matches .ok _ _) ∧ executed 1 overlappingLimited = 4 ∧
      Stopped (execute 1 (overlappingLimited.withLimit 4)) := by
  have herror : (execute 1 (overlappingLimited.withLimit 4) matches
      .error (.traced _ (.plain (.runaway _) _) _) _) := by decide +kernel
  refine ⟨by decide +kernel, by decide +kernel, ?_⟩
  generalize execute 1 (overlappingLimited.withLimit 4) = r at herror
  split at herror
  · exact ⟨_, _, _, rfl, rfl⟩
  · cases herror

end QuakeVm
