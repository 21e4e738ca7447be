import QuakeVm.Proofs.Linking

/-!
# The program of a machine

Whatever happens to a loaded program, its statements stay and there are as many registers. Of its
functions, loading changes only those that stand for the builtin of their name, and nothing changes them
afterwards (`Machine.Carries`).
-/

namespace QuakeVm

open QuakeVm.Action Activation

/-- A machine has the code of a program and registers for its globals. -/
structure Machine.Carries (p : Program) (m : Machine) : Prop where
  statements_eq : m.program.statements = p.statements
  size_registers : m.registers.size = (Registers.ofGlobals p.globals).size
  function_eq : ∀ {i : Nat} {f : Function}, p.functions[i]? = some f → f.isNamedBuiltin = false →
    m.program.functions[i]? = some f

theorem Program.function_eq_ok {p : Program} {i : Nat} {f : Function}
    (hi : p.functions[i]? = some f) (hpos : 0 < i) : p.function i = .ok f := by
  unfold function entry?
  rw [if_neg (by simpa using Nat.ne_of_gt hpos), if_neg (by omega), Int.toNat_natCast, hi]

theorem Machine.Carries.of_control {p : Program} {m m' : Machine} (h : m.Carries p)
    (hcontrol : m'.program = m.program) (hsize : m'.registers.size = m.registers.size) :
    m'.Carries p where
  statements_eq := hcontrol ▸ h.statements_eq
  size_registers := hsize.trans h.size_registers
  function_eq := hcontrol ▸ h.function_eq

theorem kept_carries (p : Program) : Kept (fun _ => True) (Machine.Carries p) where
  effect h ha := ha.of_control (congrArg Control.program h.keeps.1) h.keeps.2
  calls _ hsize _ _ _ _ ha := ha.of_control rfl hsize

namespace Activation

theorem bindNamed_of_code (role : Role) (name : String) {f : Function} (bound : Nat) (w : World)
    (hf : f.isNamedBuiltin = false) : (bindNamed role name f bound w).1 = f := by
  unfold bindNamed
  rw [hf]
  rfl

theorem getElem?_bindAllNamed (role : Role) (p : Program) {functions : List Function} {i : Nat}
    {f : Function} (bound : Nat) (w : World) (hi : functions[i]? = some f)
    (hf : f.isNamedBuiltin = false) : (bindAllNamed role p bound w functions).1[i]? = some f := by
  induction functions generalizing bound w i with
  | nil => cases hi
  | cons g rest ih =>
    cases i with
    | zero =>
      cases hi
      exact congrArg some (bindNamed_of_code role _ bound w hf)
    | succ i => exact ih _ _ hi

theorem carries_link {p : Program} {s : Activation} (h : s.machine.Carries p) :
    s.link.machine.Carries p := by
  unfold link
  dsimp only
  split
  · exact h
  · refine ⟨h.statements_eq, h.size_registers, fun {i f} hi hf => ?_⟩
    have hi' := h.function_eq hi hf
    rw [← Array.getElem?_toList] at hi'
    -- The null function stays, and the others are bound one by one.
    rw [List.getElem?_toArray]
    cases hfunctions : s.machine.program.functions.toList with
    | nil => rw [hfunctions] at hi'; cases hi'
    | cons null rest =>
      rw [hfunctions] at hi'
      cases i with
      | zero => exact hi'
      | succ i => exact getElem?_bindAllNamed _ _ _ _ hi' hf

theorem size_declareAll (s : Activation) :
    s.declareAll.machine.registers.size = s.machine.registers.size := by
  have hone (s : Activation) (v : Autocvar) :
      (s.declare v).machine.registers.size = s.machine.registers.size := by
    unfold declare
    split
    · exact (s.machine.control_synchronize _ v).2
    · dsimp only
      split <;> split <;> rfl
  have hfold (l : List Autocvar) (s : Activation) :
      (l.foldl declare s).machine.registers.size = s.machine.registers.size := by
    induction l generalizing s with
    | nil => rfl
    | cons v l ih => exact (ih _).trans (hone s v)
  exact hfold _ s

/-- A program that has been loaded is carried. -/
theorem carries_load (role : Role) (p : Program) (w : World) : (load role p w).machine.Carries p := by
  have hnew : (Machine.new role p w.cvars).Carries p := ⟨rfl, rfl, fun hi _ => hi⟩
  have hlink := carries_link (s := ⟨.new role p w.cvars, w⟩) hnew
  generalize hs : (Activation.mk (.new role p w.cvars) w).link = s at hlink
  have hdeclared : s.declareAll.machine.Carries p :=
    hlink.of_control (congrArg Control.program s.control_declareAll) s.size_declareAll
  unfold load
  rw [hs]
  exact hdeclared

/-- A program begins with the globals that it has, when none of them follows a variable. -/
theorem registers_load {p : Program} (role : Role) (w : World) (hp : Autocvar.ofProgram p = []) :
    (load role p w).machine.registers = .ofGlobals p.globals := by
  have hlink (s : Activation) : s.link.machine.registers = s.machine.registers ∧
      Autocvar.ofProgram s.link.machine.program = Autocvar.ofProgram s.machine.program := by
    unfold link
    dsimp only
    split <;> exact ⟨rfl, rfl⟩
  obtain ⟨hregisters, hfound⟩ := hlink ⟨.new role p w.cvars, w⟩
  unfold load
  dsimp only [mapWorld]
  unfold declareAll
  rw [hfound.trans hp]
  exact hregisters

/-- **A loaded program is carried whatever happens to it.** -/
theorem Later.carries {role : Role} {p : Program} {w : World} {a : Activation}
    (h : Later (load role p w) a) : a.machine.Carries p :=
  h.keeps (kept_carries p) (carries_load role p w)

/-- A loaded program can begin with a function that has no window, and then finds its globals as they
were built. -/
theorem exists_later_of_function {p : Program} {i : Nat} {f : Function} (role : Role) (w : World)
    (hfollows : Autocvar.ofProgram p = []) (hf : p.functions[i]? = some f) (hi : 0 < i)
    (hnamed : f.isNamedBuiltin = false) (hwindow : f.windowSize = 0)
    (hsizes : Machine.parameterSizes f = []) :
    ∃ a, Later (load role p w) a ∧ a.machine.calls.length = 1 ∧ a.machine.saved = [] ∧
      a.machine.registers = Registers.ofGlobals p.globals := by
  obtain ⟨hcalls, hsaved, -⟩ := atRest_load role p w
  have hfunction := Program.function_eq_ok ((carries_load role p w).function_eq hf hnamed) hi
  obtain ⟨m, hm⟩ := Machine.enter_of_room (-1) hfunction (by rw [hcalls]; decide)
    (by rw [hsaved, hwindow]; decide)
  obtain ⟨f', hf', -, -, hcontrol, -⟩ := Machine.enter_eq_ok hm
  obtain rfl : f' = f := Except.ok.inj (hf'.symm.trans hfunction)
  rw [hwindow] at hcontrol
  have hentered := enterFunction_eq_ok.mpr ⟨m, hm, rfl⟩
  refine ⟨⟨m, (load role p w).world⟩, .single (.enter hentered), ?_, ?_, ?_⟩
  · exact (Machine.depth_of_control hcontrol).trans (congrArg (·.length + 1) hcalls)
  · exact (congrArg Control.saved hcontrol).trans hsaved
  · show m.registers = _
    rw [(Machine.registers_of_enter hm hfunction).2, hsizes, Machine.copyParameters,
      registers_load role w hfollows]

end Activation

/-! ## Statements of the program -/

namespace Machine.Carries

variable {p : Program} {a : Activation} {i : Nat} {st : Statement} {op : Opcode}

/-- The statements of a program are fetched as it has them. -/
theorem fetch_eq (h : a.machine.Carries p) (hi : p.statements[i]? = some st)
    (hop : st.op = op.number) :
    ∃ b, fetch i a = .ok (.ofStatement op st) b ∧
      b.machine = { a.machine with statement := i } := by
  refine fetch_of_entry ?_ (hop ▸ op.ofNumber?_number)
  unfold Program.entry?
  rw [if_neg (by omega), h.statements_eq]
  exact hi

/-- A jump that is taken goes on at its distance. -/
theorem step_of_jump (h : a.machine.Carries p) (hi : p.statements[i]? = some st)
    (hop : st.op = op.number) {taken : Registers → Bool} {d : Int}
    (hjump : .ofStatement op st = Instruction.jump taken d)
    (htaken : taken a.machine.registers = true) (exitDepth : Nat) :
    ∃ c, step exitDepth i a = .ok (some (i + d)) c := by
  obtain ⟨b, hfetch, hb⟩ := h.fetch_eq hi hop
  rw [hjump] at hfetch
  rw [step_of_fetch exitDepth hfetch]
  unfold perform
  dsimp only
  rw [bind_apply, machine_apply, hb]
  dsimp only
  rw [if_pos htaken]
  have hnext : (i : Int) + 1 + d - 1 = i + d := by omega
  rw [hnext]
  exact ⟨_, rfl⟩

/-- An instruction that computes goes on behind itself. -/
theorem step_of_compute (h : a.machine.Carries p) (hi : p.statements[i]? = some st)
    (hop : st.op = op.number) {g : Registers → Registers}
    (hcompute : .ofStatement op st = Instruction.compute g) (exitDepth : Nat) :
    ∃ c, step exitDepth i a = .ok (some (i + 1)) c ∧
      c.machine = { a.machine with statement := i, registers := g a.machine.registers } := by
  obtain ⟨b, hfetch, hb⟩ := h.fetch_eq hi hop
  rw [hcompute] at hfetch
  rw [step_of_fetch exitDepth hfetch]
  refine ⟨_, rfl, ?_⟩
  show { b.machine with registers := g b.machine.registers } = _
  rw [hb]

/-- A call of a function with code enters it if there is room on both stacks. -/
theorem step_of_call (h : a.machine.Carries p) (hi : p.statements[i]? = some st)
    (hop : st.op = op.number) {function arguments : Nat} {f : Function}
    (hcall : .ofStatement op st = Instruction.call function arguments)
    (hf : a.machine.program.function (a.machine.registers.get function).toInt = .ok f)
    (hcode : f.slot? = none) (hdepth : a.machine.calls.length < Limits.callDepth)
    (hroom : a.machine.saved.length + f.windowSize ≤ Limits.savedLocals) (exitDepth : Nat) :
    ∃ s c, step exitDepth i a = .ok (some s) c ∧ c.machine.depth = a.machine.depth + 1 ∧
      c.machine.function = (a.machine.registers.get function).toInt := by
  obtain ⟨b, hfetch, hb⟩ := h.fetch_eq hi hop
  rw [hcall] at hfetch
  have hlookup : b.machine.program.function (b.machine.registers.get function).toInt = .ok f := by
    rw [hb]
    exact hf
  -- Fetching and counting the arguments change nothing that entering the function looks at.
  obtain ⟨m, hm⟩ := Machine.enter_of_room (m := { b.machine with argumentCount := arguments })
    (i + 1) hlookup (by rw [hb]; exact hdepth) (by rw [hb]; exact hroom)
  obtain ⟨_, -, -, -, hcontrol, -⟩ := Machine.enter_eq_ok hm
  have hentered : callFunction (b.machine.registers.get function).toInt arguments (i + 1) b =
      .ok f.firstStatement.toInt ⟨m, b.world⟩ := by
    rw [callFunction_apply]
    refine bind_eq_ok.mpr ⟨f, _, lift_eq_ok.mpr ⟨hlookup, rfl⟩, ?_⟩
    rw [hcode]
    exact enterFunction_eq_ok.mpr ⟨m, hm, rfl⟩
  refine ⟨f.firstStatement.toInt, ⟨m, b.world⟩, ?_, ?_, ?_⟩
  · rw [step_of_fetch exitDepth hfetch]
    exact bind_eq_ok.mpr ⟨_, b, rfl, map_eq_ok.mpr ⟨_, hentered, rfl⟩⟩
  · rw [Machine.depth_of_control hcontrol, hb]
    rfl
  · have hregisters : b.machine.registers = a.machine.registers := by rw [hb]
    rw [← hregisters]
    exact congrArg Control.function hcontrol

end Machine.Carries

end QuakeVm
