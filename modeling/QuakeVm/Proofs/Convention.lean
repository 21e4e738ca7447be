import QuakeVm.Proofs.Layout
import QuakeVm.Proofs.LoadedProgram

/-!
# The calling convention

A caller stores the arguments of a call in the parameter registers. The interpreter saves the window of
the called function and copies the parameters into its beginning. When the function returns, three words
go to the return registers and the window gets its saved words back.

That these fit together rests on where things lie. The operands of a caller and the windows of
functions are behind the parameter registers, so storing an argument does not disturb the next one,
copying the parameters does not disturb the parameter registers, and putting a window back does not
disturb the value that is returned. A function may call itself with operands from its own window.
-/

namespace QuakeVm

open QuakeVm.Action Activation Assembler Point

/-! ## Copied words -/

namespace Registers

theorem size_ofGlobals (globals : Array Int32) :
    (ofGlobals globals).size = max globals.size reservedRegisters := by
  unfold ofGlobals size
  rw [Array.size_append, Array.size_replicate]
  omega

theorem get_copy_of_not (r : Registers) {target n x : Nat} (source : Nat)
    (h : x < target ∨ target + n ≤ x) : (r.copy target source n).get x = r.get x := by
  induction n generalizing r target source with
  | zero => rfl
  | succ n ih =>
    rw [copy, ih _ (source + 1) (by omega), get_set_ne _ _ (by omega)]

/-- Words that are copied downwards, or to a place behind their own, arrive as they were. -/
theorem get_copy (r : Registers) {target source n k : Nat} (hk : k < n)
    (hsize : target + k < r.size) (h : target ≤ source ∨ source + n ≤ target) :
    (r.copy target source n).get (target + k) = r.get (source + k) := by
  induction n generalizing r target source k with
  | zero => omega
  | succ n ih =>
    rw [copy]
    cases k with
    | zero =>
      have hbelow : target < target + 1 ∨ target + 1 + n ≤ target := Or.inl (Nat.lt_succ_self _)
      exact (get_copy_of_not _ (source + 1) hbelow).trans (get_set_self r _ hsize)
    | succ k =>
      have htarget : target + (k + 1) = target + 1 + k := by omega
      have hsource : source + (k + 1) = source + 1 + k := by omega
      rw [htarget, hsource, ih _ (by omega) (by rw [size_set]; omega) (by omega),
        get_set_ne _ _ (by omega)]

/-! ## Arguments and parameters -/

/-- The registers after some arguments have been stored, from parameter `n` on. -/
def storeArguments (r : Registers) (n : Nat) : List (UInt16 × ValueType) → Registers
  | [] => r
  | (offset, type) :: rest =>
    storeArguments (r.copy (parameter n) offset.toNat type.size) (n + 1) rest

section Arguments

variable {r : Registers} {n k j : Nat} {args : List (UInt16 × ValueType)}

theorem size_storeArguments (r : Registers) (n : Nat) (args : List (UInt16 × ValueType)) :
    (storeArguments r n args).size = r.size := by
  induction args generalizing r n with
  | nil => rfl
  | cons arg args ih => rw [storeArguments, ih, size_copy]

/-- Storing arguments changes their parameter registers and nothing else. -/
theorem get_storeArguments_of_not {x : Nat} (r : Registers)
    (h : x < parameter n ∨ parameter (n + args.length) ≤ x) :
    (storeArguments r n args).get x = r.get x := by
  induction args generalizing r n with
  | nil => rfl
  | cons arg args ih =>
    obtain ⟨offset, type⟩ := arg
    have hsize := type.size_bounds.2
    rw [List.length_cons] at h
    unfold parameter at h ih
    rw [storeArguments, ih _ (by omega), get_copy_of_not _ _ (by unfold parameter; omega)]

/-- Each argument arrives in its parameter register as it was before the first one was stored. -/
theorem get_storeArguments {arg : UInt16 × ValueType} (hk : args[k]? = some arg)
    (hj : j < arg.2.size) (hn : n + args.length ≤ maxParameters)
    (hargs : ∀ arg ∈ args, reservedRegisters ≤ arg.1.toNat) (hr : reservedRegisters ≤ r.size) :
    (storeArguments r n args).get (parameter (n + k) + j) = r.get (arg.1.toNat + j) := by
  induction args generalizing r n k with
  | nil => cases hk
  | cons arg' args ih =>
    obtain ⟨offset, type⟩ := arg'
    have hoffset : reservedRegisters ≤ offset.toNat := hargs _ List.mem_cons_self
    have hsize := type.size_bounds.2
    rw [List.length_cons] at hn
    unfold maxParameters at hn ih
    unfold reservedRegisters at hoffset hr ih
    rw [storeArguments]
    cases k with
    | zero =>
      cases hk
      have hsize' : j < type.size := hj
      rw [get_storeArguments_of_not _ (Or.inl (by unfold parameter; omega)),
        Nat.add_zero, get_copy _ hsize' (by unfold parameter; omega)
          (Or.inl (by unfold parameter; omega))]
    | succ k =>
      have harg := hargs arg (List.mem_cons_of_mem _ (List.mem_of_getElem? hk))
      unfold reservedRegisters at harg
      rw [← Nat.add_assoc, Nat.add_right_comm, ih hk (by omega)
        (fun x hx => hargs x (List.mem_cons_of_mem _ hx)) (by rw [size_copy]; exact hr)]
      exact get_copy_of_not _ _ (Or.inr (by unfold parameter; omega))

end Arguments

end Registers

namespace Machine

/-- Copying parameters leaves what is before the window. -/
theorem get_copyParameters_of_lt (r : Registers) {target x : Nat} (n : Nat) (sizes : List Nat)
    (h : x < target) : (copyParameters r target n sizes).get x = r.get x := by
  induction sizes generalizing r target n with
  | nil => rfl
  | cons size sizes ih =>
    rw [copyParameters, ih _ _ (by omega), Registers.get_copy_of_not _ _ (Or.inl h)]

/-- Each parameter arrives at its place in the window. -/
theorem get_copyParameters {r : Registers} {target n k j place : Nat} {types : List ValueType}
    {t : ValueType} (hplace : (parameterPlaces target types)[k]? = some place)
    (ht : types[k]? = some t) (hj : j < t.size) (hn : n + types.length ≤ maxParameters)
    (htarget : reservedRegisters ≤ target)
    (hsize : target + (types.flatMap fun t => List.replicate t.size (0 : Int32)).length ≤ r.size) :
    (copyParameters r target n (types.map ValueType.size)).get (place + j) =
      r.get (parameter (n + k) + j) := by
  induction types generalizing r target n k with
  | nil => cases ht
  | cons t' types ih =>
    rw [List.flatMap_cons, List.length_append, List.length_replicate] at hsize
    rw [List.length_cons] at hn
    have hbound := t.size_bounds.2
    unfold maxParameters at hn ih
    unfold reservedRegisters at htarget ih
    rw [List.map_cons, copyParameters]
    cases k with
    | zero =>
      cases hplace
      cases ht
      rw [get_copyParameters_of_lt _ _ _ (by omega), Nat.add_zero]
      exact Registers.get_copy _ hj (by omega) (Or.inr (by unfold parameter; omega))
    | succ k =>
      have hlt : k < types.length := by
        obtain ⟨hlt, -⟩ := List.getElem?_eq_some_iff.mp ht
        simpa using hlt
      have hcopied := ih (r := r.copy target (parameter n) t'.size) (n := n + 1) hplace ht (by omega)
        (by omega) (by rw [Registers.size_copy]; omega)
      have hindex : n + 1 + k = n + (k + 1) := by omega
      rw [hcopied, hindex]
      exact Registers.get_copy_of_not _ _ (Or.inl (by unfold parameter; omega))

/-- The sizes that a function gives for its parameters are those of their types. -/
theorem parameterSizes_eq {f : Function} {types : List ValueType}
    (hcount : f.parameters = Int32.ofNat types.length)
    (hsizes : f.parameterSizes =
      .ofFn fun i => ((types[i.val]?.map ValueType.size).getD 0).toUInt8)
    (hlength : types.length ≤ 8) : parameterSizes f = types.map ValueType.size := by
  have hparameters : f.parameterCount = types.length := by
    unfold Function.parameterCount
    rw [hcount, Int32.toInt_ofNat_of_lt (by omega)]
    omega
  unfold parameterSizes
  rw [hparameters, hsizes]
  refine List.ext_getElem ?_ fun k hk hk' => ?_
  · simp [hlength]
  · have hlt : k < types.length := by simpa using hk'
    have hbound := types[k].size_bounds.2
    have hexact : types[k].size.toUInt8.toNat = types[k].size := Nat.mod_eq_of_lt (by omega)
    simp [hlt, hexact]

end Machine

/-! ## Steps of a call -/

namespace Point

/-- A run goes from one point to another in a number of steps. -/
inductive Steps (exitDepth : Nat) : Nat → Point → Point → Prop where
  | none (p : Point) : Steps exitDepth 0 p p
  | step {n : Nat} {p q r : Point} (hpq : Steps exitDepth n p q) (hqr : q.Advances exitDepth r) :
    Steps exitDepth (n + 1) p r

variable {exitDepth : Nat} {p q r : Point}

/-- A point has one successor. -/
theorem Advances.eq (h : p.Advances exitDepth q) (h' : p.Advances exitDepth r) : q = r := by
  unfold Advances at h h'
  rw [h] at h'
  cases q
  cases h'
  rfl

theorem Steps.eq {n : Nat} (h : Steps exitDepth n p q) (h' : Steps exitDepth n p r) : q = r := by
  induction h generalizing r with
  | none => cases h'; rfl
  | step _ hqr ih =>
    cases h' with
    | step hpq' hqr' =>
      obtain rfl := ih hpq'
      exact hqr.eq hqr'

theorem Steps.head {n : Nat} (hpq : p.Advances exitDepth q) (hqr : Steps exitDepth n q r) :
    Steps exitDepth (n + 1) p r := by
  induction hqr with
  | none => exact .step (.none p) hpq
  | step _ hlast ih => exact .step (ih hpq) hlast

theorem Advances.carries {prog : Program} (h : p.Advances exitDepth q)
    (hp : p.state.machine.Carries prog) : q.state.machine.Carries prog := by
  have hkept := (kept_carries prog).step exitDepth (s := p.next) (fun _ _ => trivial) hp
  rw [final, h] at hkept
  exact hkept

theorem Inside.carries {depth : Nat} {prog : Program} (h : Inside exitDepth depth p q)
    (hp : p.state.machine.Carries prog) : q.state.machine.Carries prog := by
  induction h with
  | start _ => exact hp
  | step _ hqr _ ih => exact hqr.carries ih

end Point

theorem ofStatement_storeFor (type : ValueType) (st : Statement) :
    Instruction.ofStatement (storeFor type) st =
      .move st.a.toNat st.b.toNat type.size := by
  cases type <;> rfl

theorem ofStatement_call {n : Nat} (hn : n ≤ 8) (st : Statement) :
    Instruction.ofStatement (Opcode.call n) st = .call st.a.toNat n := by
  match n with
  | 0 | 1 | 2 | 3 | 4 | 5 | 6 | 7 | 8 => rfl
  | n + 9 => omega

/-- **The statements of a call store its arguments.** -/
theorem steps_arguments {prog : Program} {i n : Nat} {a : Activation}
    {args : List (UInt16 × ValueType)} (exitDepth : Nat) (ha : a.machine.Carries prog)
    (hn : n + args.length ≤ maxParameters)
    (hst : ∀ k, k < args.length → prog.statements[i + k]? = (argumentStatements n args)[k]?) :
    ∃ b : Activation, Steps exitDepth args.length ⟨i, a⟩ ⟨(i + args.length : Nat), b⟩ ∧
      b.machine.control = a.machine.control ∧
      b.machine.registers = a.machine.registers.storeArguments n args ∧ b.machine.Carries prog := by
  induction args generalizing i n a with
  | nil => exact ⟨a, .none _, rfl, rfl, ha⟩
  | cons arg args ih =>
    obtain ⟨offset, type⟩ := arg
    rw [List.length_cons] at hn
    -- The first statement stores the first argument; the others follow one further on.
    have hregister : (parameter n).toUInt16.toNat = parameter n := by
      unfold maxParameters at hn
      unfold parameter
      exact Nat.mod_eq_of_lt (by omega)
    have hfirst : prog.statements[i]? =
        some ⟨(storeFor type).number, offset, (parameter n).toUInt16, 0⟩ := hst 0 (by simp)
    obtain ⟨b, hstep, hb⟩ :=
      ha.step_of_compute hfirst rfl (ofStatement_storeFor type _) exitDepth
    dsimp only at hb
    rw [hregister] at hb
    have hadvances : Advances exitDepth ⟨i, a⟩ ⟨(i + 1 : Nat), b⟩ := hstep
    obtain ⟨c, hsteps, hcontrol, hregisters, hc⟩ := ih (i := i + 1) (n := n + 1) (a := b)
      (hadvances.carries ha) (by omega) fun k hk => by
        have hnext : i + 1 + k = i + (k + 1) := by omega
        rw [hnext]
        exact hst (k + 1) (by simpa using hk)
    have hend : i + 1 + args.length = i + (args.length + 1) := by omega
    rw [hend] at hsteps
    refine ⟨c, .head hadvances hsteps, hcontrol.trans (by rw [hb]; rfl), ?_, hc⟩
    rw [hregisters, hb]
    rfl

/-- **A function that returns takes its caller back to where it left off**, with three words as its
value and the window as it was saved. -/
theorem step_of_return {exitDepth x : Nat} {s number resume : Int} {a b : Activation} {base : Control}
    {f : Function} {words : List Int32} (hfetch : fetch s a = .ok (.leave (some x)) b)
    (ha : a.machine.control = base.push number resume words)
    (hf : base.program.function number = .ok f) (hwords : words.length = f.windowSize)
    (hdepth : base.calls.length ≠ exitDepth) :
    ∃ c, step exitDepth s a = .ok (some resume) c ∧ c.machine.control = base ∧
      c.machine.registers =
        (a.machine.registers.copy returnRegister x 3).setWindow f.windowStart words := by
  obtain ⟨-, -, -, -, -, hb⟩ := fetch_eq_ok hfetch
  have hcontrol : b.machine.control = base.push number resume words := by
    rw [hb]
    exact ha
  obtain ⟨m, hm, hback, hregisters⟩ := Machine.leave_of_push
    (m := { b.machine with registers := b.machine.registers.copy returnRegister x 3 })
    hcontrol hf hwords
  refine ⟨⟨m, b.world⟩, ?_, hback, ?_⟩
  · rw [step_of_fetch exitDepth hfetch, perform_leave]
    refine bind_eq_ok.mpr ⟨(), _, rfl, ?_⟩
    refine bind_eq_ok.mpr ⟨resume, _, leaveFunction_eq_ok.mpr ⟨m, hm, rfl⟩, ?_⟩
    have hne : ¬ (m.depth == exitDepth) = true := by
      rw [Machine.depth_of_control hback]
      simpa using hdepth
    rw [bind_apply, machine_apply]
    dsimp only
    rw [if_neg hne]
    rfl
  · rw [hregisters, hb]

/-! ## Calls of a session -/

namespace Assembler

/-- A call in a session: its first statement, the global of the function, and the operands. -/
structure CallSite where
  source : Nat
  function : UInt16
  arguments : List (UInt16 × ValueType)

/-- A session has a call. -/
def Calls (rs : List Request) (c : CallSite) : Prop :=
  ∃ before after b, rs = before ++ .call c.function c.arguments :: after ∧
    new.performAll before = .ok b ∧ c.source = b.statements.size

/-- A call passes what a function takes, and its operands are behind the reserved registers. -/
structure Fits (c : CallSite) (d : Subroutine) : Prop where
  sizes_eq : c.arguments.map (·.2.size) = d.types.map ValueType.size
  function_ge : reservedRegisters ≤ c.function.toNat
  argument_ge : ∀ arg ∈ c.arguments, reservedRegisters ≤ arg.1.toNat

theorem length_argumentStatements (n : Nat) (args : List (UInt16 × ValueType)) :
    (argumentStatements n args).length = args.length := by
  induction args generalizing n with
  | nil => rfl
  | cons arg args ih => rw [argumentStatements, List.length_cons, List.length_cons, ih]

/-- The statements of a call stand in the program as they were emitted. -/
theorem Calls.statements_eq {rs : List Request} {b : Assembler} {p : Program} {c : CallSite}
    (hc : Calls rs c) (h : new.performAll rs = .ok b) (hp : b.build = .ok p) :
    (∀ k, k < c.arguments.length →
      p.statements[c.source + k]? = (argumentStatements 0 c.arguments)[k]?) ∧
    p.statements[c.source + c.arguments.length]? =
      some ⟨(Opcode.call c.arguments.length).number, c.function, 0, 0⟩ := by
  obtain ⟨before, after, start, rfl, hstart, hsource⟩ := hc
  obtain ⟨called, hcalled, h⟩ := exists_perform_of_performAll h hstart
  have hlength := length_argumentStatements 0 c.arguments
  have hstatement {k : Nat} (hk : k < c.arguments.length + 1) :=
    getElem?_build (extends_of_performAll hstart) (performs hcalled) (extends_of_performAll h) hp rfl
      (k := k) (by simpa [Request.statements, hlength] using hk)
  rw [hsource]
  constructor
  · intro k hk
    rw [hstatement (by omega), Request.statements, List.getElem?_append_left (by omega)]
  · rw [hstatement (by omega), Request.statements, List.getElem?_append_right (by omega), hlength,
      Nat.sub_self]
    rfl

/-- The statements of a call have been executed, and the run is at the beginning of a function. -/
structure Reaches (exitDepth : Nat) (c : CallSite) (d : Subroutine) (a : Activation) (q : Point) :
    Prop where
  steps : Steps exitDepth (c.arguments.length + 1) ⟨c.source, a⟩ q
  depth_eq : q.depth = a.machine.depth + 1
  function_eq : q.state.machine.function = d.number.toInt

/-- What a call can rely on in the state `a`. -/
structure Honours (p : Program) (c : CallSite) (d : Subroutine) (f : Function) (exitDepth : Nat)
    (a : Activation) : Prop where
  /-- The function is reached if the global of the call names it and there is room on both stacks. -/
  reaches : p.statements.size < 0x80000000 →
    (a.machine.registers.get c.function.toNat).toInt = d.number.toInt →
    a.machine.calls.length < Limits.callDepth →
    a.machine.saved.length + f.windowSize ≤ Limits.savedLocals → ∃ q, Reaches exitDepth c d a q
  /-- The function begins with its first statement. -/
  begins : ∀ q, Reaches exitDepth c d a q → q.next = f.firstStatement.toInt
  /-- The parameters begin with the words that the operands had before the first one was stored. -/
  parameters : ∀ q, Reaches exitDepth c d a q → ∀ (k : Nat) (offset : UInt16)
    (arg : UInt16 × ValueType) (j : Nat), d.offsets[k]? = some offset → c.arguments[k]? = some arg →
    j < arg.2.size →
    q.state.machine.registers.get (offset.toNat + j) = a.machine.registers.get (arg.1.toNat + j)
  /-- A return of the function goes back behind the call, with the words that it reads as its value. -/
  returns : ∀ q r st, Reaches exitDepth c d a q → Inside exitDepth a.machine.depth q r →
    r.depth = q.depth → Program.entry? p.statements r.next = some st →
    st.op = Opcode.return_.number → returnRegister ≤ st.a.toNat →
    ∃ a', step exitDepth r.next r.state = .ok (some (c.source + c.arguments.length + 1)) a' ∧
      a'.machine.control = a.machine.control ∧ ∀ k, k < 3 →
        a'.machine.registers.get (returnRegister + k) =
          r.state.machine.registers.get (st.a.toNat + k)

/-- What is the same for every call of a function: it stands in the program that was built. -/
structure Assembled (rs : List Request) (b : Assembler) (p : Program) (d : Subroutine)
    (start ended : Assembler) (f : Function) : Prop where
  performAll_eq : new.performAll rs = .ok b
  size_le : b.globals.size ≤ 0x10000
  build_eq : b.build = .ok p
  origin : Origin b d start ended f

namespace Assembled

variable {rs : List Request} {b : Assembler} {p : Program} {d : Subroutine} {start ended : Assembler}
  {f : Function}

theorem function_eq (h : Assembled rs b p d start ended f) :
    p.function d.number.toInt = .ok (closed ended.globals.size f) := by
  rw [h.origin.toInt_number h.performAll_eq h.size_le]
  refine Program.function_eq_ok ?_ h.origin.functions_pos
  rw [(build_eq_ok h.build_eq).2.1]
  exact h.origin.function_eq

/-- Loading the program leaves the function as it was assembled. -/
theorem loaded_function_eq (h : Assembled rs b p d start ended f) {m : Machine} (hm : m.Carries p) :
    m.program.function d.number.toInt = .ok (closed ended.globals.size f) := by
  have hsizes := h.origin.size_le
  have hglobals := h.size_le
  -- Its parameters lie behind the globals of the system, so it does not stand for a builtin.
  have hstart : f.parmStart ≠ 0 := by
    intro hzero
    have hplace : (Int32.ofNat (start.globals.size + 1)).toInt = (start.globals.size + 1 : Nat) :=
      Int32.toInt_ofNat_of_lt (by omega)
    rw [← h.origin.parmStart_eq, hzero, Int32.toInt_zero] at hplace
    omega
  have hnamed : (closed ended.globals.size f).isNamedBuiltin = false := by
    simp [Function.isNamedBuiltin, closed, hstart]
  rw [h.origin.toInt_number h.performAll_eq h.size_le]
  refine Program.function_eq_ok (hm.function_eq ?_ hnamed) h.origin.functions_pos
  rw [(build_eq_ok h.build_eq).2.1]
  exact h.origin.function_eq

theorem slot?_eq_none (h : Assembled rs b p d start ended f) (hsize : p.statements.size < 0x80000000) :
    (closed ended.globals.size f).slot? = none := by
  have hlinked := size_link (build_eq_ok h.build_eq).1
  have hbody := (extends_of_performAll h.origin.performAll_body).size_statements_le
  have hended := h.origin.extends_ended.size_statements_le
  rw [h.origin.allocates.statements_eq] at hbody
  have hfirst : f.firstStatement.toInt = start.statements.size := by
    rw [h.origin.firstStatement_eq]
    exact Int32.toInt_ofNat_of_lt (by omega)
  unfold Function.slot? closed
  dsimp only
  rw [if_neg (by rw [Int32.lt_iff_toInt_lt, hfirst, Int32.toInt_zero]; omega)]

theorem size_registers (h : Assembled rs b p d start ended f) {m : Machine} (hm : m.Carries p) :
    reservedRegisters ≤ m.registers.size ∧ d.begun.globals.size ≤ m.registers.size := by
  have hsizes := h.origin.size_le
  rw [hm.size_registers, Registers.size_ofGlobals, (build_eq_ok h.build_eq).2.2]
  omega

variable {c : CallSite} {a : Activation} {exitDepth : Nat} {q : Point}

theorem length_arguments (h : Assembled rs b p d start ended f) (hfits : Fits c d) :
    c.arguments.length = d.types.length ∧ c.arguments.length ≤ maxParameters := by
  have hlength := congrArg List.length hfits.sizes_eq
  rw [List.length_map, List.length_map] at hlength
  have htypes := h.origin.length_types
  unfold maxParameters
  omega

/-- The arguments of the call are stored. -/
theorem exists_stored (h : Assembled rs b p d start ended f) (hc : Calls rs c) (hfits : Fits c d)
    (ha : a.machine.Carries p) (exitDepth : Nat) :
    ∃ a' : Activation, Steps exitDepth c.arguments.length ⟨c.source, a⟩
        ⟨(c.source + c.arguments.length : Nat), a'⟩ ∧
      a'.machine.control = a.machine.control ∧
      a'.machine.registers = a.machine.registers.storeArguments 0 c.arguments ∧
      a'.machine.Carries p := by
  have hlength := (h.length_arguments hfits).2
  exact steps_arguments exitDepth ha (by omega) (hc.statements_eq h.performAll_eq h.build_eq).1

/-- However the call reaches the function, it is entered with the arguments stored. -/
theorem exists_enter (h : Assembled rs b p d start ended f) (hc : Calls rs c) (hfits : Fits c d)
    (ha : a.machine.Carries p) (hq : Reaches exitDepth c d a q) :
    ∃ m : Machine, m.control = a.machine.control ∧
      m.registers = a.machine.registers.storeArguments 0 c.arguments ∧ m.Carries p ∧
      m.enter d.number.toInt (c.source + c.arguments.length + 1) = .ok (q.next, q.state.machine) ∧
      q.state.machine.Carries p := by
  obtain ⟨a', hstored, hcontrol, hregisters, hcarries⟩ := h.exists_stored hc hfits ha exitDepth
  cases hq.steps with
  | step hbefore hlast =>
    obtain rfl := hstored.eq hbefore
    have hdepth : q.depth = a'.machine.depth + 1 := by
      rw [hq.depth_eq, Machine.depth_of_control hcontrol]
      rfl
    obtain ⟨m, hm, hm', henter⟩ := hlast.exists_enter hdepth
    refine ⟨m, hm.trans hcontrol, hm'.trans hregisters, ?_, ?_, hlast.carries hcarries⟩
    · exact hcarries.of_control (congrArg Control.program hm) (congrArg Registers.size hm')
    · rw [hq.function_eq] at henter
      exact henter

theorem reaches (h : Assembled rs b p d start ended f) (hc : Calls rs c) (hfits : Fits c d)
    (ha : a.machine.Carries p) (hsize : p.statements.size < 0x80000000)
    (hnumber : (a.machine.registers.get c.function.toNat).toInt = d.number.toInt)
    (hdepth : a.machine.calls.length < Limits.callDepth)
    (hroom : a.machine.saved.length + (closed ended.globals.size f).windowSize ≤ Limits.savedLocals)
    (exitDepth : Nat) : ∃ q, Reaches exitDepth c d a q := by
  obtain ⟨a', hstored, hcontrol, hregisters, hcarries⟩ := h.exists_stored hc hfits ha exitDepth
  have hlength := (h.length_arguments hfits).2
  -- The arguments have not touched the global of the function.
  have hglobal : (a'.machine.registers.get c.function.toNat).toInt = d.number.toInt := by
    have hge := hfits.function_ge
    unfold reservedRegisters at hge
    unfold maxParameters at hlength
    rw [hregisters, Registers.get_storeArguments_of_not _ (Or.inr (by unfold parameter; omega))]
    exact hnumber
  have hcalls : a'.machine.calls = a.machine.calls := congrArg Control.calls hcontrol
  have hsaved : a'.machine.saved = a.machine.saved := congrArg Control.saved hcontrol
  obtain ⟨s, a'', hstep, hdeeper, hfunction⟩ := hcarries.step_of_call
    (hc.statements_eq h.performAll_eq h.build_eq).2 rfl (ofStatement_call hlength _)
    (hglobal ▸ h.loaded_function_eq hcarries) (h.slot?_eq_none hsize) (hcalls ▸ hdepth) (hsaved ▸ hroom)
    exitDepth
  refine ⟨⟨s, a''⟩, .step hstored hstep, ?_, hfunction.trans hglobal⟩
  exact hdeeper.trans (congrArg (· + 1) (Machine.depth_of_control hcontrol))

/-- **The parameters of a function begin as the operands of its call.** -/
theorem parameters (h : Assembled rs b p d start ended f) (hc : Calls rs c) (hfits : Fits c d)
    (ha : a.machine.Carries p) (hq : Reaches exitDepth c d a q) {k j : Nat} {offset : UInt16}
    {arg : UInt16 × ValueType} (hoffset : d.offsets[k]? = some offset)
    (harg : c.arguments[k]? = some arg) (hj : j < arg.2.size) :
    q.state.machine.registers.get (offset.toNat + j) =
      a.machine.registers.get (arg.1.toNat + j) := by
  obtain ⟨m, -, hregisters, hm, henter, -⟩ := h.exists_enter hc hfits ha hq
  obtain ⟨-, hcopied⟩ := Machine.registers_of_enter henter (h.loaded_function_eq hm)
  obtain ⟨hlength, hmax⟩ := h.length_arguments hfits
  have hsizes := Machine.parameterSizes_eq (f := closed ended.globals.size f)
    h.origin.parameters_eq h.origin.parameterSizes_eq h.origin.length_types
  -- The parameter has the size of the argument.
  obtain ⟨type, htype, hsize⟩ : ∃ type, d.types[k]? = some type ∧ type.size = arg.2.size := by
    have hsame := congrArg (·[k]?) hfits.sizes_eq
    simp only [List.getElem?_map, harg, Option.map_some] at hsame
    exact Option.map_eq_some_iff.mp hsame.symm
  obtain ⟨hplace, -⟩ := h.origin.place_of_offset h.size_le hoffset htype
  obtain ⟨hreserved, hroom⟩ := h.size_registers hm
  have hle := h.origin.size_le
  calc q.state.machine.registers.get (offset.toNat + j)
      = m.registers.get (parameter (0 + k) + j) := by
        rw [hcopied, hsizes, (h.origin.window_eq h.size_le).1]
        refine Machine.get_copyParameters hplace htype (by omega) (by omega) ?_ ?_
        · unfold reservedRegisters
          omega
        · rw [← h.origin.size_begun]
          exact hroom
    _ = a.machine.registers.get (arg.1.toNat + j) := by
        rw [hregisters]
        refine Registers.get_storeArguments harg hj (by omega) hfits.argument_ge ?_
        rw [hregisters, Registers.size_storeArguments] at hreserved
        exact hreserved

/-- **A function returns behind its call**, with the value that it has read. -/
theorem returns (h : Assembled rs b p d start ended f) (hc : Calls rs c) (hfits : Fits c d)
    (ha : a.machine.Carries p) (hexit : exitDepth < a.machine.depth)
    (hq : Reaches exitDepth c d a q) {r : Point} {st : Statement}
    (hr : Inside exitDepth a.machine.depth q r) (hdepth : r.depth = q.depth)
    (hst : Program.entry? p.statements r.next = some st) (hop : st.op = Opcode.return_.number)
    (hx : returnRegister ≤ st.a.toNat) :
    ∃ a', step exitDepth r.next r.state = .ok (some (c.source + c.arguments.length + 1)) a' ∧
      a'.machine.control = a.machine.control ∧ ∀ k, k < 3 →
        a'.machine.registers.get (returnRegister + k) =
          r.state.machine.registers.get (st.a.toNat + k) := by
  obtain ⟨m, hcontrol, -, hm, henter, hcarries⟩ := h.exists_enter hc hfits ha hq
  have hf := h.loaded_function_eq hm
  obtain ⟨f', hf', -, -, hpushed, -⟩ := Machine.enter_eq_ok henter
  obtain rfl : f' = closed ended.globals.size f := Except.ok.inj (hf'.symm.trans hf)
  -- The stacks are those of the entry again, since the run is as deep as there.
  have hentry : q.state.machine.control.calls.length = a.machine.depth + 1 := hq.depth_eq
  obtain ⟨hstacked, -⟩ := hr.stacked hentry rfl
  have hsame : r.state.machine.control = _ := (hstacked.eq_base hdepth).trans hpushed
  have hrcarries := hr.carries hcarries
  obtain ⟨b', hfetch, -⟩ := fetch_of_entry (hrcarries.statements_eq ▸ hst)
    (hop ▸ Opcode.return_.ofNumber?_number)
  have hmdepth : m.control.calls.length ≠ exitDepth := by
    rw [hcontrol]
    exact Nat.ne_of_gt hexit
  obtain ⟨a', hstep, hback, hregisters⟩ :=
    step_of_return hfetch hsame hf' (Registers.length_window _ _ _) hmdepth
  refine ⟨a', hstep, hback.trans hcontrol, fun k hk => ?_⟩
  have hsize := (h.size_registers hrcarries).1
  have hwindow := (h.origin.window_eq h.size_le).1
  have hle := h.origin.size_le
  have hreturn : returnRegister = 1 := rfl
  unfold reservedRegisters at hsize
  rw [hregisters, Registers.get_setWindow_of_lt _ _ (by omega)]
  exact Registers.get_copy _ hk (by omega) (Or.inl hx)

theorem honours (h : Assembled rs b p d start ended f) (hc : Calls rs c) (hfits : Fits c d)
    (ha : a.machine.Carries p) (hexit : exitDepth < a.machine.depth) :
    Honours p c d (closed ended.globals.size f) exitDepth a where
  reaches hsize hnumber hdepth hroom := h.reaches hc hfits ha hsize hnumber hdepth hroom exitDepth
  begins _ hq := by
    obtain ⟨m, -, -, hm, henter, -⟩ := h.exists_enter hc hfits ha hq
    exact (Machine.registers_of_enter henter (h.loaded_function_eq hm)).1
  parameters _ hq _ _ _ _ hoffset harg hj := h.parameters hc hfits ha hq hoffset harg hj
  returns _ _ _ hq hr hdepth hst hop hx := h.returns hc hfits ha hexit hq hr hdepth hst hop hx

end Assembled

/-- **The calling convention holds from the assembler to the interpreter.** A function that a session
defines owns its window. In every state of the loaded program, inside of a run, a call of it that fits
enters it with the operands as its parameters, and a return goes back behind the call with the value
that was returned. -/
theorem calling_convention {rs : List Request} {b : Assembler} {p : Program} {d : Subroutine}
    (h : new.performAll rs = .ok b) (hsize : b.globals.size ≤ 0x10000) (hp : b.build = .ok p)
    (hd : Defines rs d) :
    ∃ f, p.function d.number.toInt = .ok f ∧ WindowOf p d f ∧
      ∀ c, Calls rs c → Fits c d → ∀ role w a exitDepth, Later (load role p w) a →
        exitDepth < a.machine.depth → Honours p c d f exitDepth a := by
  obtain ⟨start, ended, f, horigin⟩ := hd.exists_origin h
  have hassembled : Assembled rs b p d start ended f := ⟨h, hsize, hp, horigin⟩
  refine ⟨closed ended.globals.size f, ?_, horigin.windowOf h hsize hp, ?_⟩
  · exact hassembled.function_eq
  · intro c hc hfits role w a exitDepth ha hexit
    exact hassembled.honours hc hfits ha.carries hexit

/-- A function that returns its second parameter and could call itself with operands from its own
window, and one that calls it. -/
def folding : List Request :=
  [.global "" .vector [7, 8, 9], .begin "fold" [.float, .vector], .localStorage .vector,
    .op .return_ 37 0 0, .call 35 [(36, .float), (40, .vector)], .finish,
    .begin "main" [], .call 35 [(33, .float), (32, .vector)], .op .done 0 0 0, .finish]

/-- What the assembler makes of it. The program begins with its globals as they are, register 35 names
the function, and the function begins with its return. -/
theorem exists_folding : ∃ b p start number offsets begun c, new.performAll folding = .ok b ∧
    b.build = .ok p ∧ new.performAll (folding.take 1) = .ok start ∧
    start.begin "fold" [.float, .vector] = .ok (number, offsets, begun) ∧
    new.performAll (folding.take 7) = .ok c ∧
    number = 1 ∧ offsets = [36, 37] ∧ c.statements.size = 5 ∧
    b.globals.size ≤ 0x10000 ∧ Autocvar.ofProgram p = [] ∧ p.statements.size = 9 ∧
    (Registers.ofGlobals p.globals).window 32 4 = [7, 8, 9, 1] ∧
    p.statements[1]? = some ⟨Opcode.return_.number, 37, 0, 0⟩ ∧
    (p.functions[1]?.map fun f => (f.firstStatement, f.windowSize)) = some (1, 7) ∧
    (p.functions[2]?.map fun f => (f.isNamedBuiltin, f.windowSize, Machine.parameterSizes f)) =
      some (false, 0, []) :=
  ⟨_, _, _, _, _, _, _, rfl, rfl, rfl, rfl, rfl, by decide +kernel⟩

theorem calling_convention_folding : ∃ b p d f a q a',
    new.performAll folding = .ok b ∧ b.globals.size ≤ 0x10000 ∧ b.build = .ok p ∧
    Defines folding d ∧ p.function d.number.toInt = .ok f ∧ WindowOf p d f ∧
    Later (load .server p (.new "game" .empty)) a ∧
    Reaches 0 ⟨5, 35, [(33, .float), (32, .vector)]⟩ d a q ∧
    q.state.machine.registers.window 36 4 = [8, 7, 8, 9] ∧
    step 0 q.next q.state = .ok (some 8) a' ∧ a'.machine.control = a.machine.control ∧
    a'.machine.registers.window returnRegister 3 = [7, 8, 9] := by
  obtain ⟨b, p, start, number, offsets, begun, c, hb, hp, hstart, hbegin, hc, rfl, rfl, hsource, hsize,
    hfollows, hstatements, hglobals, hreturn, hfold, hmain⟩ := exists_folding
  obtain ⟨fold, hfold, hfacts⟩ := Option.map_eq_some_iff.mp hfold
  obtain ⟨main, hmain, hfacts'⟩ := Option.map_eq_some_iff.mp hmain
  obtain ⟨hfirst, hlocals⟩ := Prod.mk.inj hfacts
  obtain ⟨hnamed, hlocals', hsizes⟩ : main.isNamedBuiltin = false ∧ main.windowSize = 0 ∧
    Machine.parameterSizes main = [] := by simpa using hfacts'
  obtain ⟨a, ha, hdepth, hsaved, hregisters⟩ := exists_later_of_function .server (.new "game" .empty)
    hfollows hmain (by decide) hnamed hlocals' hsizes
  have hd : Defines folding ⟨[.float, .vector], 1, [36, 37], begun, (folding.drop 2).take 3⟩ :=
    ⟨folding.take 1, "fold", folding.drop 6, start, rfl, by simp [folding], hstart, hbegin⟩
  obtain ⟨f, hf, hwindow, hhonours⟩ := calling_convention hb hsize hp hd
  obtain rfl : f = fold := Except.ok.inj (hf.symm.trans (Program.function_eq_ok hfold Nat.one_pos))
  obtain ⟨hreaches, hbegins, hparameters, hreturns⟩ := hhonours ⟨5, 35, [(33, .float), (32, .vector)]⟩
    ⟨folding.take 7, folding.drop 8, c, rfl, hc, hsource.symm⟩ ⟨rfl, by decide, by decide⟩ _ _ _ 0 ha
    (by rw [Machine.depth, hdepth]; decide)
  -- The operands are at 33 and 32, and the global of the function is at 35.
  rw [← hregisters] at hglobals
  simp only [Registers.window, List.cons.injEq, and_true] at hglobals
  obtain ⟨h32, h33, h34, h35⟩ := hglobals
  obtain ⟨q, hq⟩ := hreaches (by rw [hstatements]; decide) (congrArg Int32.toInt h35)
    (by rw [hdepth]; decide) (by rw [hsaved, hlocals]; decide)
  have hscalar := hparameters q hq 0 36 (33, .float) 0 rfl rfl (by decide)
  have hvector (j : Nat) (hj : j < 3) := hparameters q hq 1 37 (32, .vector) j rfl rfl hj
  have hnext : q.next = 1 := by rw [hbegins q hq, hfirst]; rfl
  obtain ⟨a', hstep, hcontrol, hvalue⟩ := hreturns q q ⟨Opcode.return_.number, 37, 0, 0⟩ hq
    (.start (by rw [hq.depth_eq]; omega)) rfl (by rw [hnext]; exact hreturn) rfl (by decide)
  refine ⟨b, p, _, f, a, q, a', hb, hsize, hp, hd, hf, hwindow, ha, hq, ?_, hstep, hcontrol, ?_⟩
  · simp only [Registers.window, List.cons.injEq, and_true]
    exact ⟨hscalar.trans h33, (hvector 0 (by decide)).trans h32, (hvector 1 (by decide)).trans h33,
      (hvector 2 (by decide)).trans h34⟩
  · simp only [Registers.window, List.cons.injEq, and_true]
    have hread (j : Nat) (hj : j < 3) := (hvalue j hj).trans (hvector j hj)
    exact ⟨(hread 0 (by decide)).trans h32, (hread 1 (by decide)).trans h33,
      (hread 2 (by decide)).trans h34⟩

end Assembler

end QuakeVm
