import QuakeVm.Proofs.Budget
import QuakeVm.Proofs.Faults
import Mathlib.Data.List.Forall2

/-!
# Tracebacks

The machine keeps no list of the calls that are active. It keeps where each caller goes on, and the
traceback of a fault is rebuilt from that. Here the active calls are followed from the outside: a
run begins with one call, a statement that calls a function of the program adds one, and a return
takes one away (`Chain.after`, `Follows`). What the machine keeps is the mirror image of that chain
at every point of a run (`Follows.mirrors`), and so the traceback shows the chain: a line for each
active call, with the name and the file that the record of its function gives
(`ActiveCall.ShownAs`).
-/

namespace QuakeVm

open QuakeVm.Action Activation

/-! ## What a statement does to the calls -/

namespace Machine

/-- The function of the program that the statement at an index calls, if it calls one. -/
def callee? (m : Machine) (s : Int) : Option Int :=
  match m.instruction? s with
  | some (.call function _) =>
    let number := (m.registers.get function).toInt
    match m.program.function number with
    | .ok f => if f.slot?.isNone then some number else none
    | .error _ => none
  | _ => none

/-- The statement at an index leaves the running function. -/
def Returns (m : Machine) (s : Int) : Prop := ∃ value, m.instruction? s = some (.leave value)

/-- Leaving a function goes back to the caller on top of the calls. -/
theorem calls_of_leave {m m' : Machine} {s : Int} (h : m.leave = .ok (s, m')) :
    m'.program = m.program ∧ m.calls = ⟨s, m'.function⟩ :: m'.calls := by
  unfold leave at h
  cases hf : m.program.function m.function with
  | error e => rw [hf] at h; cases h
  | ok f =>
    rw [hf] at h
    dsimp only at h
    split at h
    · cases h
    cases hcalls : m.calls with
    | nil => rw [hcalls] at h; cases h
    | cons call calls =>
      rw [hcalls] at h
      cases h
      exact ⟨rfl, rfl⟩

end Machine

/-- What the step of a statement does to the calls. -/
inductive CallStep (m : Machine) (s : Int) (m' : Machine) : Prop where
  | stays (hcallee : m.callee? s = none) (hreturns : ¬ m.Returns s)
    (hcontrol : m'.control = m.control)
  | enters {number : Int} {words : List Int32} (hcallee : m.callee? s = some number)
    (hcontrol : m'.control = m.control.push number (s + 1) words)
  | returns (resume : Int) (hreturns : m.Returns s) (hprogram : m'.program = m.program)
    (hcalls : m.calls = ⟨resume, m'.function⟩ :: m'.calls)

theorem callStep_of_step {exitDepth : Nat} {s : Int} {a b : Activation} {r : Option Int}
    (h : step exitDepth s a = .ok r b) : CallStep a.machine s b.machine := by
  obtain ⟨i, a₁, hfetch, h⟩ := bind_eq_ok.mp h
  have hi := instruction?_of_fetch hfetch
  obtain ⟨st, op, -, -, hst, hmachine⟩ := fetch_eq_ok hfetch
  have hcontrol : a₁.machine.control = a.machine.control := by rw [hmachine]; rfl
  by_cases hstays : i.Stays
  · have heffects := effects_perform (hst ▸ Instruction.keepsSize_ofStatement op st) hstays exitDepth
      (s + 1) a₁
    rw [final, h] at heffects
    refine .stays ?_ ?_ (heffects.control_eq.trans hcontrol)
    · unfold Machine.callee?
      rw [hi]
      cases i <;> first | rfl | exact hstays.elim
    · rintro ⟨value, hvalue⟩
      rw [hi] at hvalue
      cases hvalue
      exact hstays
  · cases i with
    | call function arguments =>
      obtain ⟨w, a₂, hword, h⟩ := bind_eq_ok.mp h
      cases hword
      obtain ⟨s', hcall, rfl⟩ := map_eq_ok.mp h
      obtain ⟨f, hf, hends⟩ := callFunction_eq_ok (fun _ => False) hcall
      -- Fetching has not touched the register of the function.
      have hcallee : a.machine.callee? s =
          if f.slot?.isNone then some (a₁.machine.registers.get function).toInt else none := by
        simp only [hmachine] at hf ⊢
        simp only [Machine.callee?, hi, hf]
      rcases hends with ⟨hslot, heffects⟩ | ⟨hslot, henter⟩
      · rw [if_neg (by simpa [Option.isSome_iff_ne_none] using hslot)] at hcallee
        refine .stays hcallee ?_ (heffects.control_eq.trans hcontrol)
        rintro ⟨value, hvalue⟩
        rw [hi] at hvalue
        cases hvalue
      · rw [if_pos (by rw [hslot]; rfl)] at hcallee
        obtain ⟨m, hm, rfl⟩ := enterFunction_eq_ok.mp henter
        obtain ⟨_, -, -, -, hpush, -⟩ := Machine.enter_eq_ok hm
        change m.control = a₁.machine.control.push _ _ _ at hpush
        exact .enters hcallee (hcontrol ▸ hpush)
    | leave value =>
      obtain ⟨c, s', heffects, hleave, -⟩ := perform_leave_eq_ok (fun _ => False) h
      have hsame : c.machine.control = a.machine.control := heffects.control_eq.trans hcontrol
      obtain ⟨m, hm, rfl⟩ := leaveFunction_eq_ok.mp hleave
      obtain ⟨hprogram, hcalls⟩ := Machine.calls_of_leave hm
      exact .returns s' ⟨value, hi⟩ (hprogram.trans (congrArg Control.program hsame))
        ((congrArg Control.calls hsame).symm.trans hcalls)
    | _ => exact absurd trivial hstays

/-! ## Active calls -/

/-- An active call: its function, and the statement that it has come to. -/
structure ActiveCall where
  function : Int
  statement : Int

/-- The line of a traceback that shows a call. It has the name and the file of the function's
record. -/
def ActiveCall.ShownAs (p : Program) (call : ActiveCall) (line : Frame) : Prop :=
  ∃ f, p.function call.function = .ok f ∧
    line = ⟨Text.lossy (p.stringAt f.name.toInt), Text.lossy (p.stringAt f.file.toInt),
      call.statement⟩

/-- The active calls: the function that runs, the statement that was fetched last, and the calls
that wait at the statement that called, the innermost first. -/
structure Chain where
  function : Int
  reached : Int
  waiting : List ActiveCall

namespace Chain

/-- The active calls, the innermost first. -/
def calls (c : Chain) : List ActiveCall := ⟨c.function, c.reached⟩ :: c.waiting

/-- The functions of the active calls, the innermost first. -/
def functions (c : Chain) : List Int := c.calls.map (·.function)

/-- The active calls after the statement at an index has been executed: a call makes its caller
wait, and a return goes on with the caller. -/
def after (c : Chain) (m : Machine) (s : Int) : Chain :=
  match m.callee? s with
  | some number => ⟨number, s, ⟨c.function, s⟩ :: c.waiting⟩
  | none =>
    match m.instruction? s, c.waiting with
    | some (.leave _), w :: rest => ⟨w.function, s, rest⟩
    | _, _ => { c with reached := s }

/-- The active calls when the statement at an index is fetched, if there is one. -/
def fetching (c : Chain) (p : Program) (s : Int) : Chain :=
  if (Program.entry? p.statements s).isSome then { c with reached := s } else c

end Chain

/-- The run of a function from `a` comes to a point after a number of steps, and these are the calls
that are active there. -/
inductive Follows (number : Int) (a : Activation) : Nat → Point → Chain → Prop where
  | start {p : Point} (h : enterFunction number (-1) a = .ok p.next p.state) :
    Follows number a 0 p ⟨number, a.machine.statement, []⟩
  | advance {n : Nat} {p q : Point} {c : Chain} (hp : Follows number a n p c)
    (h : p.Advances a.machine.depth q) :
    Follows number a (n + 1) q (c.after p.state.machine p.next)

/-- The run of a function from `a` ends in a fault while some calls are active: a step ends in it,
or the run has taken as many steps as it may. -/
inductive FailsIn (number : Int) (a : Activation) : Chain → Fault → Prop where
  | step {n : Nat} {p : Point} {c : Chain} {e : Fault} {b : Activation}
    (hp : Follows number a n p c) (hn : n + 1 < a.machine.limit)
    (h : step a.machine.depth p.next p.state = .error e b) :
    FailsIn number a (c.fetching a.machine.program p.next) e
  | limit {n : Nat} {p : Point} {c : Chain} (hp : Follows number a n p c)
    (hn : n = a.machine.limit - 1) :
    FailsIn number a c (.ofCause (.runaway a.machine.limit))

/-- The statement at an index of a program is a call. -/
def Program.CallsAt (p : Program) (s : Int) : Prop :=
  ∃ st op, entry? p.statements s = some st ∧ Opcode.ofNumber? st.op = some op ∧
    op.arguments?.isSome

namespace Chain

variable {c : Chain} {m : Machine} {s : Int}

theorem after_of_callee {number : Int} (h : m.callee? s = some number) :
    c.after m s = ⟨number, s, ⟨c.function, s⟩ :: c.waiting⟩ := by
  unfold after
  rw [h]

theorem after_of_returns {w : ActiveCall} {rest : List ActiveCall} (h : m.Returns s)
    (hwaiting : c.waiting = w :: rest) : c.after m s = ⟨w.function, s, rest⟩ := by
  obtain ⟨value, hvalue⟩ := h
  simp only [after, Machine.callee?, hvalue, hwaiting]

theorem after_of_stays (hcallee : m.callee? s = none) (hreturns : ¬ m.Returns s) :
    c.after m s = { c with reached := s } := by
  unfold after
  rw [hcallee]
  dsimp only
  split
  next value _ _ hvalue _ => exact absurd ⟨value, hvalue⟩ hreturns
  next => rfl

/-- What is true of the active calls of every run of a function: their functions are functions of
the program, those that wait have called, and the last one is the function itself. -/
structure Proper (p : Program) (number : Int) (c : Chain) : Prop where
  known : ∀ n ∈ c.functions, ∃ f, p.function n = .ok f
  callsAt : ∀ w ∈ c.waiting, p.CallsAt w.statement
  last : c.functions.getLast? = some number

theorem Proper.reaching {p : Program} {number : Int} (h : c.Proper p number) (s : Int) :
    Proper p number { c with reached := s } := ⟨h.known, h.callsAt, h.last⟩

end Chain

theorem Program.pos_of_function {p : Program} {number : Int} {f : Function}
    (h : p.function number = .ok f) : 0 < number := by
  have hne := Control.ne_zero_of_function h
  by_contra hle
  have hneg : number < 0 := by omega
  simp [Program.function, entry?, hne, hneg] at h

theorem Machine.callee?_eq_some {m : Machine} {s number : Int} (h : m.callee? s = some number) :
    m.program.CallsAt s ∧ ∃ f, m.program.function number = .ok f := by
  unfold callee? at h
  split at h
  next function arguments hi =>
    dsimp only at h
    split at h
    next f hf =>
      split at h
      · cases h
        refine ⟨?_, f, hf⟩
        obtain ⟨st, hst, hop⟩ := Option.bind_eq_some_iff.mp hi
        obtain ⟨op, hop, heq⟩ := Option.map_eq_some_iff.mp hop
        obtain ⟨harguments, -⟩ := Instruction.call_of_ofStatement heq
        exact ⟨st, op, hst, hop, by rw [harguments]; rfl⟩
      · cases h
    next => cases h
  next => cases h

/-- The machine keeps the chain: the running function and the current statement, and for each call
that waits where it goes on. Below them is what the run has been started from. -/
structure Mirrors (p : Program) (c : Chain) (m : Machine) : Prop where
  program_eq : m.program = p
  function_eq : m.function = c.function
  statement_eq : m.statement = c.reached
  calls_eq : m.calls = c.waiting.map (fun w => ⟨w.statement + 1, w.function⟩) ++ [⟨-1, 0⟩]

theorem Mirrors.depth_pos {p : Program} {c : Chain} {m : Machine} (h : Mirrors p c m) :
    0 < m.depth := by
  rw [Machine.depth, h.calls_eq, List.length_append]
  exact Nat.succ_pos _

/-- Calls that are made and left in the machine are made and left in the chain. -/
theorem Mirrors.after {p : Program} {c : Chain} {m m' : Machine} {s number : Int}
    (hm : Mirrors p c m) (hc : c.Proper p number) (h : CallStep m s m')
    (hstatement : m'.statement = s) (hdepth : 0 < m'.depth) :
    Mirrors p (c.after m s) m' ∧ (c.after m s).Proper p number := by
  cases h with
  | stays hcallee hreturns hcontrol =>
    rw [Chain.after_of_stays hcallee hreturns]
    refine ⟨⟨?_, ?_, hstatement, ?_⟩, hc.reaching s⟩
    · exact (congrArg Control.program hcontrol).trans hm.program_eq
    · exact (congrArg Control.function hcontrol).trans hm.function_eq
    · exact (congrArg Control.calls hcontrol).trans hm.calls_eq
  | @enters callee words hcallee hcontrol =>
    obtain ⟨hcalls, hknown⟩ := Machine.callee?_eq_some hcallee
    rw [Chain.after_of_callee hcallee]
    refine ⟨⟨?_, congrArg Control.function hcontrol, hstatement, ?_⟩, ?_, ?_, ?_⟩
    · exact (congrArg Control.program hcontrol).trans hm.program_eq
    · refine (congrArg Control.calls hcontrol).trans ?_
      show ⟨s + 1, m.function⟩ :: m.calls = _
      rw [hm.function_eq, hm.calls_eq]
      rfl
    · intro n hn
      rcases List.mem_cons.mp hn with rfl | hn
      · exact hm.program_eq ▸ hknown
      · exact hc.known n hn
    · intro w hw
      rcases List.mem_cons.mp hw with rfl | hw
      · exact hm.program_eq ▸ hcalls
      · exact hc.callsAt w hw
    · exact (List.getLast?_cons_cons ..).trans hc.last
  | returns resume hreturns hprogram hcalls =>
    rw [hm.calls_eq] at hcalls
    cases hwaiting : c.waiting with
    | nil =>
      -- The function that the run has been started with is left last.
      rw [hwaiting] at hcalls
      rw [Machine.depth, ← (List.cons.inj hcalls).2] at hdepth
      exact absurd hdepth (Nat.lt_irrefl 0)
    | cons w rest =>
      rw [hwaiting] at hcalls
      obtain ⟨hcall, hrest⟩ := List.cons.inj hcalls
      rw [Chain.after_of_returns hreturns hwaiting]
      refine ⟨⟨hprogram.trans hm.program_eq, (congrArg Call.function hcall).symm, hstatement,
        hrest.symm⟩, ?_, ?_, ?_⟩
      · intro n hn
        exact hc.known n (List.mem_cons_of_mem _ (by rw [hwaiting]; exact hn))
      · intro v hv
        exact hc.callsAt v (by rw [hwaiting]; exact List.mem_cons_of_mem _ hv)
      · have hlast := hc.last
        rw [Chain.functions, Chain.calls, hwaiting, List.map_cons, List.map_cons,
          List.getLast?_cons_cons] at hlast
        exact hlast

/-- **The machine mirrors the active calls at every point of a run.** -/
theorem Follows.mirrors {number : Int} {a : Activation} {n : Nat} {p : Point} {c : Chain}
    (ha : a.machine.AtRest) (h : Follows number a n p c) :
    Mirrors a.machine.program c p.state.machine ∧ c.Proper a.machine.program number := by
  obtain ⟨hcalls, hsaved, hfunction⟩ := ha
  have hzero : a.machine.depth = 0 := by rw [Machine.depth, hcalls]; rfl
  induction h with
  | start h =>
    obtain ⟨m, henter, hstate⟩ := enterFunction_eq_ok.mp h
    obtain ⟨f, hf, -, -, hpush, -⟩ := Machine.enter_eq_ok henter
    rw [hstate]
    refine ⟨⟨congrArg Control.program hpush, congrArg Control.function hpush,
      Machine.statement_of_enter henter, ?_⟩, ?_, ?_, rfl⟩
    · refine (congrArg Control.calls hpush).trans ?_
      show ⟨-1, a.machine.function⟩ :: a.machine.calls = _
      rw [hcalls, hfunction]
      rfl
    · intro n hn
      exact ⟨f, List.mem_singleton.mp hn ▸ hf⟩
    · intro w hw
      cases hw
  | advance _ hstep ih =>
    obtain ⟨hm, hc⟩ := ih
    rw [hzero] at hstep
    exact hm.after hc (callStep_of_step hstep) (statement_of_step hstep)
      (hstep.lt_depth hm.depth_pos)

/-- A call of a function of the program is shown by the line that the program's names give. -/
theorem ActiveCall.shownAs_line {p : Program} {call : ActiveCall} {f : Function}
    (h : p.function call.function = .ok f) :
    call.ShownAs p ⟨p.functionName call.function, p.functionFile call.function, call.statement⟩ :=
  ⟨f, h, by rw [p.functionName_of_function h, p.functionFile_of_function h]⟩

/-- The traceback that is rebuilt from a machine shows the calls that it mirrors. -/
theorem Mirrors.shownAs_frames {p : Program} {c : Chain} {m : Machine} {number : Int}
    (hm : Mirrors p c m) (hc : c.Proper p number) :
    List.Forall₂ (ActiveCall.ShownAs p) c.calls m.frames := by
  have hknown : ∀ call ∈ c.calls, ∃ f, p.function call.function = .ok f :=
    fun call hcall => hc.known _ (List.mem_map_of_mem hcall)
  have hfilter : m.calls.filter (0 < ·.function) =
      c.waiting.map fun w => ⟨w.statement + 1, w.function⟩ := by
    rw [hm.calls_eq, List.filter_append, List.filter_eq_self.mpr, List.filter_cons_of_neg (by decide)]
    · exact List.append_nil _
    · intro call hcall
      obtain ⟨w, hw, rfl⟩ := List.mem_map.mp hcall
      obtain ⟨f, hf⟩ := hknown w (List.mem_cons_of_mem _ hw)
      exact decide_eq_true (Program.pos_of_function hf)
  have hframes : m.frames = c.calls.map fun call =>
      ⟨p.functionName call.function, p.functionFile call.function, call.statement⟩ := by
    simp only [Machine.frames, Chain.calls, hfilter, List.map_map, List.map_cons, hm.program_eq,
      hm.function_eq, hm.statement_eq, Function.comp_def, Int.add_sub_cancel]
  rw [hframes, List.forall₂_map_right_iff, List.forall₂_same]
  intro call hcall
  obtain ⟨f, hf⟩ := hknown call hcall
  exact ActiveCall.shownAs_line hf

/-! ## Failing runs -/

theorem Follows.runsTo {number : Int} {a : Activation} {n : Nat} {p : Point} {c : Chain}
    (h : Follows number a n p c) : RunsTo number a n p := by
  induction h with
  | start h => exact .start h
  | advance _ hstep ih => exact .advance ih hstep

/-- A step that ends in a fault leaves the calls as they are. -/
theorem Mirrors.fetching {p : Program} {c : Chain} {exitDepth : Nat} {s : Int} {a b : Activation}
    {e : Fault} (hm : Mirrors p c a.machine) (h : step exitDepth s a = .error e b) :
    Mirrors p (c.fetching p s) b.machine := by
  have hcontrol := (effects_of_step_error h).control_eq
  have hprogram : b.machine.program = p :=
    (congrArg Control.program hcontrol).trans hm.program_eq
  have hfunction : b.machine.function = c.function :=
    (congrArg Control.function hcontrol).trans hm.function_eq
  have hcalls := (congrArg Control.calls hcontrol).trans hm.calls_eq
  have hstatement := (unplaced_of_step h).1
  unfold Machine.fetched at hstatement
  unfold Chain.fetching
  rw [hm.program_eq] at hstatement
  split
  next hsome => exact ⟨hprogram, hfunction, by rw [hstatement, if_pos hsome], hcalls⟩
  next hnone =>
    exact ⟨hprogram, hfunction, by rw [hstatement, if_neg hnone, hm.statement_eq], hcalls⟩

theorem Chain.Proper.fetching {p : Program} {c : Chain} {number : Int} (hc : c.Proper p number)
    (s : Int) : (c.fetching p s).Proper p number := by
  unfold Chain.fetching
  split
  · exact hc.reaching s
  · exact hc

/-- A run that does not come to its end fails while some calls are active. -/
theorem exists_failsIn {number : Int} {a b : Activation} {n k : Nat} {p : Point} {c : Chain}
    {e : Fault} (hp : Follows number a k p c) (hlimit : k + n = a.machine.limit - 1)
    (h : runFrom a.machine.depth n p.next p.state = .error e b) :
    ∃ c' e', FailsIn number a c' e' := by
  induction n generalizing k p c with
  | zero => exact ⟨c, _, .limit hp hlimit⟩
  | succ n ih =>
    unfold runFrom at h
    rcases bind_eq_error.mp h with hstep | ⟨r, b', hstep, h⟩
    · exact ⟨_, e, .step hp (by omega) hstep⟩
    · cases r with
      | none => cases h
      | some s => exact ih (p := ⟨s, b'⟩) (.advance hp hstep) (by omega) h

/-- The fault of a run does not say where it was raised, but the machine that it leaves mirrors the
calls that were active. -/
theorem FailsIn.runFunction_eq {number : Int} {a : Activation} {c : Chain} {e : Fault}
    (ha : a.machine.AtRest) (h : FailsIn number a c e) :
    e.Unplaced ∧ c.Proper a.machine.program number ∧
      ∃ b, runFunction number a = .error e b ∧ Mirrors a.machine.program c b.machine := by
  cases h with
  | @step n p c e b hp hn hstep =>
    obtain ⟨hm, hc⟩ := hp.mirrors ha
    refine ⟨(unplaced_of_step hstep).2, hc.fetching p.next, b, ?_, hm.fetching hstep⟩
    have hlimit : n + (a.machine.limit - 2 - n + 1) = a.machine.limit - 1 := by omega
    rw [hp.runsTo.runFunction_eq hlimit, runFrom, bind_apply, hstep]
  | @limit n p c hp hn =>
    obtain ⟨hm, hc⟩ := hp.mirrors ha
    refine ⟨Fault.unplaced_ofCause _, hc, p.state, ?_, hm⟩
    obtain ⟨hlimit, -⟩ := (kept_settings _ _).runPoint ⟨rfl, rfl⟩ hp.runsTo.runPoint
    rw [hp.runsTo.runFunction_eq (n := 0) hn, ← hlimit]
    rfl

/-- A fault that comes without its place is given one. -/
theorem place_of_unplaced (cause : Cause) (builtin : Option String) (name : String) (index : Int) :
    ((Fault.plain cause { builtin }).orFunction name).orStatement index =
      .plain cause { builtin, function := some name, statement := some index } := rfl

/-- **Tracebacks show the active calls.** A function of the program is executed, it is entered, and
the run ends in a fault. The fault that leaves the run has a line for each call that is active where
the run fails, the innermost first, up to the function that was executed. Each line has the name and
the file that the record of the function gives, and a call that waits is shown with the statement
that called. Inside is the fault of the run itself, with the name of the innermost function and the
statement that was fetched last; its cause and the builtin that it names are those that it was raised
with. -/
theorem traceback_exact {number : Int} {f : Function} {a b c : Activation} {s : Int} {t : Fault}
    (ha : a.machine.AtRest) (hf : a.machine.program.function number = .ok f)
    (hslot : f.slot? = none) (hentered : enterFunction number (-1) a = .ok s b)
    (h : execute number a = .error t c) :
    (∃ chain e, FailsIn number a chain e) ∧
    ∀ chain e, FailsIn number a chain e →
      chain.functions.getLast? = some number ∧
      (∀ w ∈ chain.waiting, a.machine.program.CallsAt w.statement) ∧
      ∃ cause builtin frames innermost, e = .plain cause { builtin } ∧
        List.Forall₂ (ActiveCall.ShownAs a.machine.program) chain.calls frames ∧
        a.machine.program.function chain.function = .ok innermost ∧
        t = .traced frames (.plain cause
          { builtin
            function := some (Text.lossy (a.machine.program.stringAt innermost.name.toInt))
            statement := some chain.reached }) {} := by
  constructor
  · cases hrun : runFunction number a with
    | ok _ b' =>
      rw [execute_of_ok hf hslot hrun] at h
      cases h
    | error e b' =>
      have hstart : RunsTo number a 0 ⟨s, b⟩ := .start hentered
      rw [hstart.runFunction_eq (Nat.zero_add _)] at hrun
      exact exists_failsIn (p := ⟨s, b⟩) (.start hentered) (Nat.zero_add _) hrun
  · intro chain e hfails
    obtain ⟨⟨cause, builtin, rfl⟩, hc, b', hrun, hm⟩ := hfails.runFunction_eq ha
    obtain ⟨innermost, hinnermost⟩ := hc.known chain.function (List.mem_cons_self ..)
    refine ⟨hc.last, hc.callsAt, cause, builtin, b'.machine.frames, innermost, rfl,
      hm.shownAs_frames hc, hinnermost, ?_⟩
    rw [execute_of_error hf hslot hrun] at h
    cases h
    rw [hm.program_eq, hm.function_eq, hm.statement_eq, Program.functionName_of_function hinnermost,
      place_of_unplaced]

/-- Two functions, `o` and `i` of the file `f.qc`, of which the first calls the second and that calls
the null function. -/
def nested : Program where
  strings := [0, 111, 0, 105, 0, 102, 46, 113, 99, 0]
  statements := #[{}, { op := Opcode.call0.number, a := 28 }, {},
    { op := Opcode.call0.number, a := 29 }, {}]
  functions := #[{}, { firstStatement := 1, name := 1, file := 5 },
    { firstStatement := 3, name := 3, file := 5 }]
  globals := Array.replicate 28 0 ++ #[2, 0]

/-- The nested functions in a machine at rest, with ten statements to run. -/
def nestedAtRest : Activation where
  machine := { StringTable.machineOf (.ofConstants []) with
    program := nested
    registers := .ofGlobals nested.globals
    limit := 10 }
  world := .new "game" .empty

/-- The null function is called at statement three, while the first function waits at statement one.
-/
theorem traceback_exact_nested :
    ∃ t c, execute 1 nestedAtRest = .error t c ∧
      t = .traced [⟨"i", "f.qc", 3⟩, ⟨"o", "f.qc", 1⟩] (.plain .nullFunction
        { function := some "i", statement := some 3 }) {} := by
  have ha : nestedAtRest.machine.AtRest := ⟨rfl, rfl, rfl⟩
  have hpoint : Follows 1 nestedAtRest 1 ⟨3, _⟩ _ := .advance (.start (p := ⟨1, _⟩) rfl) rfl
  have hfails : FailsIn 1 nestedAtRest ⟨2, 3, [⟨1, 1⟩]⟩ (.ofCause .nullFunction) :=
    .step hpoint (by decide) rfl
  obtain ⟨-, -, b, hrun, -⟩ := hfails.runFunction_eq ha
  have h : execute 1 nestedAtRest = .error _ _ := execute_of_error rfl rfl hrun
  obtain ⟨-, hall⟩ := traceback_exact ha rfl rfl rfl h
  obtain ⟨-, -, cause, builtin, frames, innermost, he, hframes, hinnermost, ht⟩ := hall _ _ hfails
  cases he
  cases hinnermost
  -- Both lines are read off the records of the functions.
  change List.Forall₂ (ActiveCall.ShownAs nested) [⟨2, 3⟩, ⟨1, 1⟩] frames at hframes
  obtain _ | ⟨⟨_, hinner, rfl⟩, _ | ⟨⟨_, houter, rfl⟩, _ | _⟩⟩ := hframes
  cases hinner
  cases houter
  exact ⟨_, _, h, ht.trans (by decide +kernel)⟩

end QuakeVm
