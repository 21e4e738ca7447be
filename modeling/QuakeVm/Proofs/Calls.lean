import QuakeVm.Machine.Load
import QuakeVm.Proofs.Step
import Mathlib.Algebra.GroupWithZero.Nat

/-!
# Calls and the words they save

Entering a function pushes its caller and the words of its window on two stacks, and leaving it takes
both off again. Nothing else touches the stacks (`Effects.control_eq`), so the calls that are active
at any time lie on top of each other: `Stacked base c` says that `c` is `base` with some calls on
top. A step keeps that, or it leaves the call that `base` itself is in (`step_stacked`).

* A function that is left gives its window back as it found it (`CompletedCall.get_window`).
* The stacks hold what the active functions need and no more (`balanced_of_stacked`), and a machine
  that runs nothing has empty stacks (`Reachable.atRest`).

## Which step leaves a call

Only leaving a function makes the stack of calls shorter, and by one. The step that comes back to the
depth at which a function was entered is therefore the one that leaves that function, whatever else
was entered and left in between.
-/

namespace QuakeVm

open QuakeVm.Action Activation

/-! ## The windows of functions -/

namespace Registers

@[simp] theorem length_window (r : Registers) (start n : Nat) : (r.window start n).length = n := by
  induction n generalizing start with
  | zero => rfl
  | succ n ih => rw [window, List.length_cons, ih]

theorem getElem?_window (r : Registers) {n i : Nat} (start : Nat) (hi : i < n) :
    (r.window start n)[i]? = some (r.get (start + i)) := by
  induction n generalizing start i with
  | zero => omega
  | succ n ih =>
    cases i with
    | zero => rfl
    | succ i =>
      rw [window, List.getElem?_cons_succ, ih (start + 1) (by omega)]
      congr 2
      omega

theorem get_of_size_le (r : Registers) {i : Nat} (h : r.size ≤ i) : r.get i = 0 := by
  unfold get
  rw [Array.getD_eq_getD_getElem?, Array.getElem?_eq_none h]
  rfl

theorem get_set_self (r : Registers) {i : Nat} (w : Int32) (h : i < r.size) :
    (r.set i w).get i = w := by
  unfold get set
  rw [Array.getD_eq_getD_getElem?, Array.getElem?_setIfInBounds_self_of_lt h]
  rfl

theorem get_set_ne (r : Registers) {i j : Nat} (w : Int32) (h : i ≠ j) :
    (r.set i w).get j = r.get j := by
  unfold get set
  rw [Array.getD_eq_getD_getElem?, Array.getD_eq_getD_getElem?, Array.getElem?_setIfInBounds_ne h]

theorem get_setWindow_of_lt (r : Registers) {start j : Nat} (words : List Int32) (h : j < start) :
    (r.setWindow start words).get j = r.get j := by
  induction words generalizing r start with
  | nil => rfl
  | cons w rest ih => rw [setWindow, ih _ (by omega), get_set_ne _ _ (by omega)]

theorem get_setWindow (r : Registers) {start i : Nat} {words : List Int32} {w : Int32}
    (hw : words[i]? = some w) (h : start + i < r.size) :
    (r.setWindow start words).get (start + i) = w := by
  induction words generalizing r start i with
  | nil => simp at hw
  | cons v rest ih =>
    rw [setWindow]
    cases i with
    | zero =>
      cases hw
      rw [get_setWindow_of_lt _ _ (by omega)]
      exact get_set_self r _ h
    | succ i =>
      rw [List.getElem?_cons_succ] at hw
      have hindex : start + (i + 1) = start + 1 + i := by omega
      rw [hindex]
      exact ih (r.set start v) hw (by rw [size_set]; omega)

/-- A window that is written back reads as before, also where it reaches beyond the registers. -/
theorem get_setWindow_window {r r' : Registers} (hsize : r'.size = r.size) {start n i : Nat}
    (hi : i < n) : (r'.setWindow start (r.window start n)).get (start + i) = r.get (start + i) := by
  by_cases h : start + i < r.size
  · exact get_setWindow r' (getElem?_window r start hi) (by omega)
  · -- Beyond the registers every read gives zero.
    rw [get_of_size_le r (by omega), get_of_size_le _ (by rw [size_setWindow]; omega)]

end Registers

theorem Machine.size_copyParameters (r : Registers) (target n : Nat) (sizes : List Nat) :
    (copyParameters r target n sizes).size = r.size := by
  induction sizes generalizing r target n with
  | nil => rfl
  | cons size rest ih => rw [copyParameters, ih, Registers.size_copy]

/-! ## What elementary changes keep -/

/-- The part of a machine that only entering and leaving functions change. -/
structure Control where
  program : Program
  calls : List Call
  saved : List Int32
  function : Int

namespace Machine

/-- The program of a machine and where its calls are. -/
def control (m : Machine) : Control := ⟨m.program, m.calls, m.saved, m.function⟩

theorem depth_of_control {m : Machine} {c : Control} (h : m.control = c) :
    m.depth = c.calls.length := congrArg (fun c => c.calls.length) h

theorem control_assign (m : Machine) (v : Autocvar) (c : Cvar) :
    (m.assign v c).control = m.control ∧ (m.assign v c).registers.size = m.registers.size := by
  unfold assign
  split <;> exact ⟨rfl, by simp⟩

theorem control_synchronize (m : Machine) (c : Cvars) (v : Autocvar) :
    (m.synchronize c v).control = m.control ∧
      (m.synchronize c v).registers.size = m.registers.size := by
  unfold synchronize
  split
  · exact control_assign m v _
  · exact ⟨rfl, rfl⟩

theorem control_update (m : Machine) (c : Cvars) (name : String) :
    (m.update c name).control = m.control ∧
      (m.update c name).registers.size = m.registers.size := by
  unfold update
  split
  · exact control_synchronize m c _
  · exact ⟨rfl, rfl⟩

end Machine

namespace Activation

variable {writable : Nat → Prop} {a b : Activation}

theorem Effect.keeps (h : Effect writable a b) :
    b.machine.control = a.machine.control ∧
      b.machine.registers.size = a.machine.registers.size := by
  cases h with
  | registers r hsize => exact ⟨rfl, hsize⟩
  | assignCvar name text =>
    unfold Activation.assignCvar
    dsimp only
    split
    · exact a.machine.control_update _ name
    · exact ⟨rfl, rfl⟩
  | _ => exact ⟨rfl, rfl⟩

theorem Effects.keeps (h : Effects writable a b) :
    b.machine.control = a.machine.control ∧
      b.machine.registers.size = a.machine.registers.size := by
  induction h with
  | refl => exact ⟨rfl, rfl⟩
  | tail _ hstep ih => exact ⟨hstep.keeps.1.trans ih.1, hstep.keeps.2.trans ih.2⟩

theorem Effects.control_eq (h : Effects writable a b) :
    b.machine.control = a.machine.control := h.keeps.1

theorem Effects.depth_eq (h : Effects writable a b) :
    b.machine.depth = a.machine.depth := Machine.depth_of_control h.control_eq

theorem Effects.size_eq (h : Effects writable a b) :
    b.machine.registers.size = a.machine.registers.size := h.keeps.2

end Activation

/-! ## Calls on top of each other -/

namespace Control

/-- The control in a function that was called, with the words of its window saved. -/
def push (c : Control) (number resume : Int) (words : List Int32) : Control :=
  { c with calls := ⟨resume, c.function⟩ :: c.calls, saved := words ++ c.saved, function := number }

/-- `c` is `base` with some calls on top. -/
inductive Stacked (base : Control) : Control → Prop where
  | base : Stacked base base
  | call {c : Control} (hc : Stacked base c) {number : Int} {f : Function} (resume : Int)
    {words : List Int32} (hf : c.program.function number = .ok f)
    (hwords : words.length = f.windowSize) (hdepth : c.calls.length < Limits.callDepth)
    (hroom : c.saved.length + f.windowSize ≤ Limits.savedLocals) :
    Stacked base (c.push number resume words)

theorem Stacked.length_calls_le {base c : Control} (h : Stacked base c) :
    base.calls.length ≤ c.calls.length := by
  induction h with
  | base => exact Nat.le_refl _
  | call _ _ _ _ _ _ ih => exact Nat.le_succ_of_le ih

/-- As many calls as in `base` are the calls of `base`. -/
theorem Stacked.eq_base {base c : Control} (h : Stacked base c)
    (hlength : c.calls.length = base.calls.length) : c = base := by
  cases h with
  | base => rfl
  | call hc _ _ _ _ _ =>
    have hle := hc.length_calls_le
    simp only [push, List.length_cons] at hlength
    omega

end Control

open Control

namespace Machine

/-- Entering a function: there is one of that number, there is room on both stacks, and the words of
its window are saved. -/
theorem enter_eq_ok {m m' : Machine} {number resume s : Int} (h : m.enter number resume = .ok (s, m')) :
    ∃ f, m.program.function number = .ok f ∧ m.calls.length < Limits.callDepth ∧
      m.saved.length + f.windowSize ≤ Limits.savedLocals ∧
      m'.control = m.control.push number resume (m.registers.window f.windowStart f.windowSize) ∧
      m'.registers.size = m.registers.size := by
  unfold enter at h
  cases hf : m.program.function number with
  | error e => rw [hf] at h; cases h
  | ok f =>
    rw [hf] at h
    dsimp only at h
    split at h
    · cases h
    split at h
    · cases h
    next hdepth hroom =>
      cases h
      exact ⟨f, rfl, by omega, by omega, rfl, size_copyParameters _ _ _ _⟩

/-- A function begins with its first statement and its parameters copied. -/
theorem registers_of_enter {m m' : Machine} {number resume s : Int} {f : Function}
    (h : m.enter number resume = .ok (s, m')) (hf : m.program.function number = .ok f) :
    s = f.firstStatement.toInt ∧
      m'.registers = copyParameters m.registers f.windowStart 0 (parameterSizes f) := by
  unfold enter at h
  rw [hf] at h
  dsimp only at h
  split at h
  · cases h
  split at h
  · cases h
  cases h
  exact ⟨rfl, rfl⟩

/-- A function can be entered if there is room on both stacks. -/
theorem enter_of_room {m : Machine} {number : Int} {f : Function} (resume : Int)
    (hf : m.program.function number = .ok f) (hdepth : m.calls.length < Limits.callDepth)
    (hroom : m.saved.length + f.windowSize ≤ Limits.savedLocals) :
    ∃ m', m.enter number resume = .ok (f.firstStatement.toInt, m') := by
  unfold enter
  rw [hf]
  dsimp only
  rw [if_neg (by omega), if_neg (by omega)]
  exact ⟨_, rfl⟩

/-- **Leaving a function takes off what entering it has pushed.** It never fails. -/
theorem leave_of_push {m : Machine} {c : Control} {number resume : Int} {f : Function}
    {words : List Int32} (hm : m.control = c.push number resume words)
    (hf : c.program.function number = .ok f) (hwords : words.length = f.windowSize) :
    ∃ m', m.leave = .ok (resume, m') ∧ m'.control = c ∧
      m'.registers = m.registers.setWindow f.windowStart words := by
  have hprogram : m.program = c.program := congrArg Control.program hm
  have hcalls : m.calls = ⟨resume, c.function⟩ :: c.calls := congrArg Control.calls hm
  have hsaved : m.saved = words ++ c.saved := congrArg Control.saved hm
  have hfunction : m.function = number := congrArg Control.function hm
  have hroom : ¬ m.saved.length < f.windowSize := by
    rw [hsaved, List.length_append]
    omega
  have hdrop : m.saved.drop f.windowSize = c.saved := by
    rw [hsaved, ← hwords, List.drop_left]
  have htake : m.saved.take f.windowSize = words := by
    rw [hsaved, ← hwords, List.take_left]
  refine ⟨{ m with
    calls := c.calls
    saved := c.saved
    registers := m.registers.setWindow f.windowStart words
    function := c.function }, ?_, ?_, rfl⟩
  · unfold leave
    rw [hprogram, hfunction, hf]
    dsimp only
    rw [if_neg hroom, hcalls]
    dsimp only
    rw [hdrop, htake]
  · show Control.mk m.program c.calls c.saved c.function = c
    rw [hprogram]

/-- Leaving a function takes one call off and keeps the number of registers. -/
theorem leave_eq_ok {m m' : Machine} {s : Int} (h : m.leave = .ok (s, m')) :
    m'.depth + 1 = m.depth ∧ m'.registers.size = m.registers.size := by
  unfold leave at h
  cases hf : m.program.function m.function with
  | error e => rw [hf] at h; cases h
  | ok f =>
    rw [hf] at h
    dsimp only at h
    split at h
    · cases h
    cases hcalls : m.calls with
    | nil => rw [hcalls] at h; cases h
    | cons call calls =>
      rw [hcalls] at h
      cases h
      exact ⟨by simp [depth, hcalls], Registers.size_setWindow _ _ _⟩

end Machine

/-! ## Steps on stacked calls -/

theorem depth_of_enterFunction {number resume s : Int} {a b : Activation}
    (h : enterFunction number resume a = .ok s b) : b.machine.depth = a.machine.depth + 1 := by
  obtain ⟨m, hm, rfl⟩ := enterFunction_eq_ok.mp h
  obtain ⟨f, -, -, -, hcontrol, -⟩ := Machine.enter_eq_ok hm
  exact Machine.depth_of_control hcontrol

theorem depth_of_leaveFunction {s : Int} {a b : Activation} (h : leaveFunction a = .ok s b) :
    b.machine.depth + 1 = a.machine.depth := by
  obtain ⟨m, hm, rfl⟩ := leaveFunction_eq_ok.mp h
  exact (Machine.leave_eq_ok hm).1

theorem enterFunction_stacked {base : Control} {number resume s : Int} {a b : Activation}
    (hs : Stacked base a.machine.control) (h : enterFunction number resume a = .ok s b) :
    Stacked base b.machine.control := by
  obtain ⟨m, henter, rfl⟩ := enterFunction_eq_ok.mp h
  obtain ⟨f, hf, hdepth, hroom, hcontrol, -⟩ := Machine.enter_eq_ok henter
  show Stacked base m.control
  rw [hcontrol]
  exact .call hs resume hf (Registers.length_window _ _ _) hdepth hroom

/-- A step keeps the calls on top of `base`, or it leaves the call that `base` is in. -/
theorem step_stacked {base : Control} {exitDepth : Nat} {s : Int} {a b : Activation}
    {r : Option Int} (hs : Stacked base a.machine.control) (h : step exitDepth s a = .ok r b) :
    Stacked base b.machine.control ∨
      ∃ c s', Effects (a.machine.writes s) a c ∧ c.machine.control = base ∧
        leaveFunction c = .ok s' b := by
  cases step_outcome h with
  | advance s' _ heffects => exact Or.inl (heffects.control_eq ▸ hs)
  | enter c number s' _ heffects _ henter =>
    exact Or.inl (enterFunction_stacked (heffects.control_eq ▸ hs) henter)
  | leave c s' _ heffects hleave =>
    have hc : Stacked base c.machine.control := heffects.control_eq ▸ hs
    -- The call that is left is the topmost one, if there is one on top of `base` at all.
    generalize hcontrol : c.machine.control = k at hc
    cases hc with
    | base => exact Or.inr ⟨c, s', heffects, hcontrol, hleave⟩
    | call hk resume hf hwords hdepth hroom =>
      obtain ⟨m, hm, hback, -⟩ := Machine.leave_of_push hcontrol hf hwords
      obtain ⟨m', hm', rfl⟩ := leaveFunction_eq_ok.mp hleave
      rw [hm] at hm'
      cases hm'
      exact Or.inl (hback ▸ hk)

/-- A step keeps the number of registers. -/
theorem size_step {exitDepth : Nat} {s : Int} {a b : Activation} {r : Option Int}
    (h : step exitDepth s a = .ok r b) :
    b.machine.registers.size = a.machine.registers.size := by
  cases step_outcome h with
  | advance s' _ heffects => exact heffects.size_eq
  | enter c number s' _ heffects _ henter =>
    obtain ⟨m, hm, rfl⟩ := enterFunction_eq_ok.mp henter
    obtain ⟨f, -, -, -, -, hsize⟩ := Machine.enter_eq_ok hm
    exact hsize.trans heffects.size_eq
  | leave c s' _ heffects hleave =>
    obtain ⟨m, hm, rfl⟩ := leaveFunction_eq_ok.mp hleave
    exact (Machine.leave_eq_ok hm).2.trans heffects.size_eq

/-! ## Runs -/

/-- A place in a run: the statement that comes next, and the state. -/
structure Point where
  next : Int
  state : Activation

namespace Point

/-- The depth of the calls at a point. -/
def depth (p : Point) : Nat := p.state.machine.depth

/-- A run goes from one point to the next in one step. -/
def Advances (exitDepth : Nat) (p q : Point) : Prop :=
  step exitDepth p.next p.state = .ok (some q.next) q.state

/-- A run goes from `p` to `q` and stays deeper than `depth` all the way. -/
inductive Inside (exitDepth depth : Nat) (p : Point) : Point → Prop where
  | start (h : depth < p.depth) : Inside exitDepth depth p p
  | step {q r : Point} (hpq : Inside exitDepth depth p q) (hqr : q.Advances exitDepth r)
    (h : depth < r.depth) : Inside exitDepth depth p r

end Point

open Point

/-- A function is entered in the state `a`, and the run goes on from `p`: a run begins with the
function, or a step of a run calls it. -/
inductive Enters (exitDepth : Nat) (number : Int) (a : Activation) : Point → Prop where
  | run {p : Point} (hdepth : a.machine.depth = exitDepth)
    (h : enterFunction number (-1) a = .ok p.next p.state) : Enters exitDepth number a p
  | call {s : Int} {p : Point} (h : Advances exitDepth ⟨s, a⟩ p)
    (hdepth : p.depth = a.machine.depth + 1) (hnumber : p.state.machine.function = number) :
    Enters exitDepth number a p

/-- A function is entered in the state `a` and later left, and `c` is the state right afterwards: the
run stays deeper than its caller until a step comes back to the caller's depth. -/
def CompletedCall (exitDepth : Nat) (number : Int) (a c : Activation) : Prop :=
  ∃ (p q : Point) (r : Option Int), Enters exitDepth number a p ∧
    Inside exitDepth a.machine.depth p q ∧
    step exitDepth q.next q.state = .ok r c ∧ c.machine.depth = a.machine.depth

/-- A step that makes the stack of calls longer enters a function, with the calls and the registers that
it finds. -/
theorem Point.Advances.exists_enter {exitDepth : Nat} {p q : Point} (h : p.Advances exitDepth q)
    (hdepth : q.depth = p.depth + 1) :
    ∃ m : Machine, m.control = p.state.machine.control ∧
      m.registers = p.state.machine.registers ∧
      m.enter q.state.machine.function (p.next + 1) = .ok (q.next, q.state.machine) := by
  cases step_outcome h with
  | advance s' _ heffects =>
    have hsame : q.depth = p.depth := heffects.depth_eq
    omega
  | enter c number s' hr heffects hregisters henter =>
    obtain ⟨m, hm, hq⟩ := enterFunction_eq_ok.mp henter
    obtain ⟨f, -, -, -, hcontrol, -⟩ := Machine.enter_eq_ok hm
    obtain rfl : q.next = s' := Option.some.inj hr
    have hnumber : q.state.machine.function = number := by
      rw [hq]
      exact congrArg Control.function hcontrol
    refine ⟨c.machine, heffects.control_eq, hregisters, ?_⟩
    rw [hnumber, hq]
    exact hm
  | leave c s' _ heffects hleave =>
    have hone : q.depth + 1 = c.machine.depth := depth_of_leaveFunction hleave
    have hsame : c.machine.depth = p.depth := heffects.depth_eq
    omega

/-- However a function is entered, the registers and the calls are those of `a` right before. -/
theorem Enters.exists_enter {exitDepth : Nat} {number : Int} {a : Activation} {p : Point}
    (h : Enters exitDepth number a p) :
    ∃ (m : Machine) (resume : Int), m.control = a.machine.control ∧
      m.registers = a.machine.registers ∧
      m.enter number resume = .ok (p.next, p.state.machine) := by
  cases h with
  | run _ h =>
    obtain ⟨m, hm, hp⟩ := enterFunction_eq_ok.mp h
    exact ⟨a.machine, -1, rfl, rfl, by rw [hp]; exact hm⟩
  | @call s _ h hdepth hnumber =>
    obtain ⟨m, hcontrol, hregisters, henter⟩ := h.exists_enter hdepth
    exact ⟨m, s + 1, hcontrol, hregisters, hnumber ▸ henter⟩

/-- Inside of a call the stacks are those of its beginning with some calls on top, and there are as
many registers. -/
theorem Point.Inside.stacked {exitDepth depth : Nat} {p q : Point} {base : Control}
    (hbase : base.calls.length = depth + 1)
    (hp : p.state.machine.control = base) (h : Inside exitDepth depth p q) :
    Stacked base q.state.machine.control ∧
      q.state.machine.registers.size = p.state.machine.registers.size := by
  induction h with
  | start _ => exact ⟨hp ▸ .base, rfl⟩
  | @step q r _ hqr hdeep ih =>
    refine ⟨?_, (size_step hqr).trans ih.2⟩
    rcases step_stacked ih.1 hqr with hs | ⟨c, s', -, hc, hleave⟩
    · exact hs
    · -- Leaving the call itself would end at the depth of its caller.
      exfalso
      have hone : r.depth + 1 = c.machine.depth := depth_of_leaveFunction hleave
      have hcdepth := Machine.depth_of_control hc
      omega

/-- **A call that is completed leaves its window as it found it.** -/
theorem CompletedCall.get_window {exitDepth : Nat} {number : Int} {a c : Activation} {f : Function}
    (h : CompletedCall exitDepth number a c) (hf : a.machine.program.function number = .ok f)
    {i : Nat} (hi : i < f.windowSize) :
    c.machine.registers.get (f.windowStart + i) = a.machine.registers.get (f.windowStart + i) := by
  obtain ⟨p, q, r, henters, hinside, hlast, hdepth⟩ := h
  obtain ⟨m, resume, hm, hregisters, henter⟩ := henters.exists_enter
  obtain ⟨f', hf', -, -, hcontrol, hsize⟩ := Machine.enter_eq_ok henter
  have hprogram : m.program = a.machine.program := congrArg Control.program hm
  obtain rfl : f' = f := Except.ok.inj (hf'.symm.trans (hprogram ▸ hf))
  have hmdepth : m.depth = a.machine.depth := Machine.depth_of_control hm
  have hbase : p.state.machine.control.calls.length = a.machine.depth + 1 := by
    rw [hcontrol, ← hmdepth]
    rfl
  obtain ⟨hstacked, hsame⟩ := hinside.stacked hbase rfl
  rcases step_stacked hstacked hlast with hs | ⟨c₁, s', heffects, hc₁, hleave⟩
  · exfalso
    have hle : p.state.machine.control.calls.length ≤ c.machine.depth := hs.length_calls_le
    omega
  · obtain ⟨m', hm', -, hrestored⟩ :=
      Machine.leave_of_push (hc₁.trans hcontrol) hf' (Registers.length_window _ _ _)
    obtain ⟨m'', hm'', rfl⟩ := leaveFunction_eq_ok.mp hleave
    rw [hm'] at hm''
    cases hm''
    show m'.registers.get _ = _
    rw [hrestored, ← hregisters]
    exact Registers.get_setWindow_window (heffects.size_eq.trans (hsame.trans hsize)) hi

/-! ## Whole runs -/

/-- A step that goes on stays deeper than the depth at which the run ends. -/
theorem Point.Advances.lt_depth {exitDepth : Nat} {p q : Point} (h : p.Advances exitDepth q)
    (hp : exitDepth < p.depth) : exitDepth < q.depth := by
  cases step_outcome h with
  | advance s _ heffects =>
    have hsame : q.depth = p.depth := heffects.depth_eq
    omega
  | enter c number s _ heffects _ henter =>
    have hone : q.depth = c.machine.depth + 1 := depth_of_enterFunction henter
    have hsame : c.machine.depth = p.depth := heffects.depth_eq
    omega
  | leave c s hr heffects hleave =>
    have hone : q.depth + 1 = c.machine.depth := depth_of_leaveFunction hleave
    have hsame : c.machine.depth = p.depth := heffects.depth_eq
    -- Leaving goes down by one, and a step that comes to the exit depth ends the run.
    have hne : q.depth ≠ exitDepth := by
      intro he
      rw [if_pos (show q.state.machine.depth = exitDepth from he)] at hr
      cases hr
    omega

theorem Point.Inside.lt_depth {exitDepth depth : Nat} {p q : Point}
    (h : Inside exitDepth depth p q) : depth < q.depth := by
  cases h with
  | start h => exact h
  | step _ _ h => exact h

/-- A run stays inside of the call that it began with. -/
theorem Point.Inside.of_advances {exitDepth : Nat} {p q : Point} (hp : exitDepth < p.depth)
    (h : Relation.ReflTransGen (Advances exitDepth) p q) : Inside exitDepth exitDepth p q := by
  induction h with
  | refl => exact .start hp
  | tail _ hqr ih => exact .step ih hqr (hqr.lt_depth ih.lt_depth)

/-- A step that ends a run ends it at the depth where the run began. -/
theorem depth_of_step_none {exitDepth : Nat} {s : Int} {a b : Activation}
    (h : step exitDepth s a = .ok none b) : b.machine.depth = exitDepth := by
  cases step_outcome h with
  | advance _ hr _ => cases hr
  | enter _ _ _ hr _ _ _ => cases hr
  | leave c s' hr _ _ =>
    by_contra hne
    rw [if_neg hne] at hr
    cases hr

/-- A run that comes to its end takes steps until one of them ends it. -/
theorem runFrom_eq_ok {exitDepth n : Nat} {s : Int} {a b : Activation}
    (h : runFrom exitDepth n s a = .ok () b) :
    ∃ q, Relation.ReflTransGen (Advances exitDepth) ⟨s, a⟩ q ∧
      step exitDepth q.next q.state = .ok none b := by
  induction n generalizing s a with
  | zero =>
    unfold runFrom at h
    obtain ⟨m, c, -, h⟩ := bind_eq_ok.mp h
    cases h
  | succ n ih =>
    unfold runFrom at h
    obtain ⟨r, c, hstep, h⟩ := bind_eq_ok.mp h
    cases r with
    | none => cases h; exact ⟨⟨s, a⟩, .refl, hstep⟩
    | some s' =>
      obtain ⟨q, hreach, hlast⟩ := ih h
      have hadvance : Advances exitDepth ⟨s, a⟩ ⟨s', c⟩ := hstep
      exact ⟨q, .head hadvance hreach, hlast⟩

theorem runFunction_eq_ok {number : Int} {a c : Activation} (h : runFunction number a = .ok () c) :
    ∃ p q : Point, enterFunction number (-1) a = .ok p.next p.state ∧
      Relation.ReflTransGen (Advances a.machine.depth) p q ∧
      step a.machine.depth q.next q.state = .ok none c := by
  unfold runFunction at h
  rw [bind_apply, machine_apply] at h
  dsimp only at h
  obtain ⟨s, b, henter, h⟩ := bind_eq_ok.mp h
  obtain ⟨m, b', hm, h⟩ := bind_eq_ok.mp h
  cases hm
  obtain ⟨q, hreach, hlast⟩ := runFrom_eq_ok h
  exact ⟨⟨s, b⟩, q, henter, hreach, hlast⟩

/-- A run that comes to its end is a completed call of its function. -/
theorem completedCall_of_runFunction {number : Int} {a c : Activation}
    (h : runFunction number a = .ok () c) : CompletedCall a.machine.depth number a c := by
  obtain ⟨p, q, henter, hreach, hlast⟩ := runFunction_eq_ok h
  have hp : a.machine.depth < p.depth :=
    Nat.lt_of_succ_le (Nat.le_of_eq (depth_of_enterFunction henter).symm)
  exact ⟨p, q, none, .run rfl henter, .of_advances hp hreach, hlast, depth_of_step_none hlast⟩

/-- **Every completed call restores its locals.** The call may be the first one of a run or any that a
step of the run makes, and what happens in between is arbitrary; a run that comes to its end is itself
a completed call. -/
theorem locals_restored (number : Int) (a c : Activation) :
    (∀ exitDepth, CompletedCall exitDepth number a c →
      ∀ f, a.machine.program.function number = .ok f → ∀ i < f.windowSize,
        c.machine.registers.get (f.windowStart + i) = a.machine.registers.get (f.windowStart + i)) ∧
    (runFunction number a = .ok () c → CompletedCall a.machine.depth number a c) :=
  ⟨fun _ hcall _ hf _ hi => hcall.get_window hf hi, completedCall_of_runFunction⟩

/-- A program with two functions whose windows overlap. The first calls the second, which writes
into the common part of the windows. -/
def overlapping : Program where
  statements := #[{}, { op := 51, a := 28 }, {}, { op := 31, a := 28, b := 30 }, {}]
  functions := #[{}, { firstStatement := 1, parmStart := 29, locals := 2 },
    { firstStatement := 3, parmStart := 30, locals := 2 }]
  globals := Array.replicate 28 0 ++ #[2, 5, 6, 7]

/-- The program with overlapping windows, loaded. -/
def overlappingLoaded : Activation := .load .client overlapping (.new "game" .empty)

/-- The loaded program with ten statements to run. -/
def overlappingLimited : Activation :=
  overlappingLoaded.mapMachine fun m => { m with limit := 10 }

theorem locals_restored_overlapping :
    ∃ c, runFunction 1 overlappingLimited = .ok () c ∧ CompletedCall 0 1 overlappingLimited c ∧
      c.machine.registers.get 30 = 6 := by
  have hok : (runFunction 1 overlappingLimited matches .ok _ _) := by decide +kernel
  cases hrun : runFunction 1 overlappingLimited with
  | error e c =>
    rw [hrun] at hok
    cases hok
  | ok _ c =>
    have hcall : CompletedCall 0 1 overlappingLimited c := (locals_restored 1 _ c).2 hrun
    exact ⟨c, rfl, hcall, (locals_restored 1 _ c).1 0 hcall _ rfl 1 (by decide)⟩

/-! ## Balance -/

/-- The number of words that a call of a function saves. -/
def Program.windowSize (p : Program) (number : Int) : Nat :=
  match p.function number with
  | .ok f => f.windowSize
  | .error _ => 0

namespace Control

/-- The active functions, the innermost first. Zero stands for none. -/
def activeFunctions (c : Control) : List Int :=
  (c.function :: c.calls.map (·.function)).filter (· != 0)

/-- The stacks hold what the active functions need, and no more than they may. -/
structure Balanced (c : Control) : Prop where
  depth_le : c.calls.length ≤ Limits.callDepth
  saved_le : c.saved.length ≤ Limits.savedLocals
  saved_eq : c.saved.length = (c.activeFunctions.map c.program.windowSize).sum
  exists_function : ∀ n ∈ c.activeFunctions, ∃ f, c.program.function n = .ok f

/-- No function is active. -/
def rest (p : Program) : Control := ⟨p, [], [], 0⟩

theorem ne_zero_of_function {p : Program} {number : Int} {f : Function}
    (h : p.function number = .ok f) : number ≠ 0 := by
  rintro rfl
  cases h

theorem activeFunctions_push {c : Control} {number : Int} (resume : Int) (words : List Int32)
    (h : number ≠ 0) :
    (c.push number resume words).activeFunctions = number :: c.activeFunctions := by
  unfold activeFunctions push
  rw [List.filter_cons_of_pos (by simpa using h)]
  rfl

theorem balanced_of_stacked {p : Program} {c : Control} (h : Stacked (rest p) c) : c.Balanced := by
  induction h with
  | base => exact ⟨Nat.zero_le _, Nat.zero_le _, rfl, by simp [activeFunctions, rest]⟩
  | @call c _ number f resume words hf hwords hdepth hroom ih =>
    have hactive := activeFunctions_push (c := c) resume words (ne_zero_of_function hf)
    have hsize : c.program.windowSize number = f.windowSize := by
      unfold Program.windowSize
      rw [hf]
    refine ⟨hdepth, ?_, ?_, ?_⟩
    · show (words ++ c.saved).length ≤ _
      rw [List.length_append]
      omega
    · show (words ++ c.saved).length = _
      rw [hactive, List.map_cons, List.sum_cons, List.length_append, ih.saved_eq, hwords]
      show _ = c.program.windowSize number + _
      rw [hsize]
      rfl
    · intro n hn
      rw [hactive] at hn
      rcases List.mem_cons.mp hn with rfl | hn
      · exact ⟨f, hf⟩
      · exact ih.exists_function n hn

end Control

/-- The points of the run of a function from `a`. -/
inductive RunPoint (number : Int) (a : Activation) : Point → Prop where
  | start {p : Point} (h : enterFunction number (-1) a = .ok p.next p.state) : RunPoint number a p
  | advance {p q : Point} (hp : RunPoint number a p) (h : p.Advances a.machine.depth q) :
    RunPoint number a q

theorem RunPoint.of_advances {number : Int} {a : Activation} {p q : Point}
    (hp : RunPoint number a p) (h : Relation.ReflTransGen (Advances a.machine.depth) p q) :
    RunPoint number a q := by
  induction h with
  | refl => exact hp
  | tail _ hqr ih => exact .advance ih hqr

/-- A machine at rest runs no function and has empty stacks. -/
def Machine.AtRest (m : Machine) : Prop := m.calls = [] ∧ m.saved = [] ∧ m.function = 0

theorem Machine.AtRest.control_eq {m : Machine} (h : m.AtRest) : m.control = rest m.program := by
  obtain ⟨hcalls, hsaved, hfunction⟩ := h
  unfold control rest
  rw [hcalls, hsaved, hfunction]

theorem Machine.AtRest.of_control {m : Machine} {p : Program} (h : m.control = rest p) :
    m.AtRest :=
  ⟨congrArg Control.calls h, congrArg Control.saved h, congrArg Control.function h⟩

theorem Machine.AtRest.of_effects {writable : Nat → Prop} {a b : Activation}
    (ha : a.machine.AtRest) (h : Effects writable a b) : b.machine.AtRest :=
  .of_control (h.control_eq.trans ha.control_eq)

/-- A step from calls on top of nothing ends with calls on top of nothing: there is no call below
that it could leave. -/
theorem step_stacked_rest {p : Program} {exitDepth : Nat} {s : Int} {a b : Activation}
    {r : Option Int} (hs : Stacked (rest p) a.machine.control) (h : step exitDepth s a = .ok r b) :
    Stacked (rest p) b.machine.control := by
  rcases step_stacked hs h with hs' | ⟨c, s', -, hc, hleave⟩
  · exact hs'
  · have hone := depth_of_leaveFunction hleave
    have hzero : c.machine.depth = 0 := Machine.depth_of_control hc
    omega

/-- At every point of a run there are calls, and they lie on top of nothing. -/
theorem RunPoint.stacked {number : Int} {a : Activation} {p : Point} (ha : a.machine.AtRest)
    (h : RunPoint number a p) :
    Stacked (rest a.machine.program) p.state.machine.control ∧ 0 < p.depth := by
  have hzero : a.machine.depth = 0 := by
    rw [Machine.depth, ha.1]
    rfl
  induction h with
  | start h =>
    refine ⟨enterFunction_stacked (ha.control_eq ▸ .base) h, ?_⟩
    have hone := depth_of_enterFunction h
    exact Nat.lt_of_lt_of_eq (Nat.succ_pos _) hone.symm
  | advance _ hadvance ih =>
    refine ⟨step_stacked_rest ih.1 hadvance, ?_⟩
    rw [hzero] at hadvance
    exact hadvance.lt_depth ih.2

/-- Where there are calls on top of nothing, the running function can be left. -/
theorem leave_of_stacked {p : Program} {m : Machine} (hs : Stacked (rest p) m.control)
    (hdepth : 0 < m.depth) : ∃ s m', m.leave = .ok (s, m') := by
  generalize hcontrol : m.control = c at hs
  cases hs with
  | base =>
    have hzero : m.depth = 0 := Machine.depth_of_control hcontrol
    omega
  | call _ resume hf hwords _ _ =>
    obtain ⟨m', hm', -⟩ := Machine.leave_of_push hcontrol hf hwords
    exact ⟨resume, m', hm'⟩

/-- At a point of a run, an instruction that leaves the function does not end in a fault. -/
theorem RunPoint.step_of_leave {number : Int} {a b : Activation} {p : Point} {value : Option Nat}
    (ha : a.machine.AtRest) (hp : RunPoint number a p)
    (hfetch : fetch p.next p.state = .ok (.leave value) b) :
    ∃ r c, step a.machine.depth p.next p.state = .ok r c := by
  cases hstep : step a.machine.depth p.next p.state with
  | ok r c => exact ⟨r, c, rfl⟩
  | error e c =>
    exfalso
    obtain ⟨hs, hdepth⟩ := hp.stacked ha
    rcases bind_eq_error.mp hstep with hf | ⟨i, b', hf, hperform⟩
    · rw [hfetch] at hf
      cases hf
    rw [hfetch] at hf
    cases hf
    obtain ⟨-, hleave⟩ := perform_leave_eq_error (p.state.machine.writes p.next) hperform
    have hpc := effects_of_step_error hstep
    have hcdepth : 0 < c.machine.depth := hpc.depth_eq ▸ hdepth
    obtain ⟨s, m, hm⟩ := leave_of_stacked (hpc.control_eq ▸ hs) hcdepth
    rw [leaveFunction_eq_ok.mpr ⟨m, hm, rfl⟩] at hleave
    cases hleave

/-! ## Machines at rest -/

theorem atRest_unwind (f : Fault) (a : Activation) : ((unwind f).final a).machine.AtRest :=
  ⟨rfl, rfl, rfl⟩

theorem atRest_runFunction {number : Int} {a b : Activation} (ha : a.machine.AtRest)
    (h : runFunction number a = .ok () b) : b.machine.AtRest := by
  obtain ⟨p, q, henter, hreach, hlast⟩ := runFunction_eq_ok h
  have hq : RunPoint number a q := .of_advances (.start henter) hreach
  have hs := step_stacked_rest (hq.stacked ha).1 hlast
  have hdepth : b.machine.depth = a.machine.depth := depth_of_step_none hlast
  refine .of_control (hs.eq_base ?_)
  show b.machine.depth = 0
  rw [hdepth, Machine.depth, ha.1]
  rfl

/-- **A machine at rest is at rest after it has executed a function.** -/
theorem atRest_execute {a : Activation} (ha : a.machine.AtRest) (number : Int) :
    ((execute number).final a).machine.AtRest := by
  rw [final, execute_apply, ← final, final_bind]
  cases hlookup : lift (a.machine.program.function number) a with
  | error e b =>
    rw [lift_eq_error hlookup]
    exact ha
  | ok f b =>
    obtain ⟨-, rfl⟩ := lift_eq_ok.mp hlookup
    dsimp only
    cases hslot : f.slot? with
    | some slot =>
      have heffects : Effects (fun _ => False) b ((executeBuiltin b.machine f slot).final b) :=
        Confined.effects b
      exact ha.of_effects heffects
    | none =>
      dsimp only
      rw [final_tryCatch]
      cases hrun : runFunction number b with
      | ok _ c => exact atRest_runFunction ha hrun
      | error e c => exact atRest_unwind e c

namespace Activation

theorem control_declare (s : Activation) (v : Autocvar) :
    (s.declare v).machine.control = s.machine.control := by
  unfold declare
  split
  · exact (s.machine.control_synchronize _ v).1
  · dsimp only
    split <;> split <;> rfl

theorem control_declareAll (s : Activation) :
    s.declareAll.machine.control = s.machine.control := by
  have hfold (l : List Autocvar) (s : Activation) :
      (l.foldl declare s).machine.control = s.machine.control := by
    induction l generalizing s with
    | nil => rfl
    | cons v l ih => exact (ih _).trans (s.control_declare v)
  exact hfold _ s

theorem atRest_link {s : Activation} (h : s.machine.AtRest) : s.link.machine.AtRest := by
  unfold link
  dsimp only
  split
  · exact h
  · exact h

/-- A machine is at rest when its program has been loaded. -/
theorem atRest_load (role : Role) (p : Program) (w : World) :
    (load role p w).machine.AtRest := by
  have hnew : (Machine.new role p w.cvars).AtRest := ⟨rfl, rfl, rfl⟩
  have hlink := atRest_link (s := ⟨.new role p w.cvars, w⟩) hnew
  unfold load
  dsimp only [mapWorld]
  exact .of_control ((control_declareAll _).trans hlink.control_eq)

end Activation

/-- The machines that loading a program and executing functions leads to. What the world is when a
function is executed does not matter. -/
inductive Machine.Reachable : Machine → Prop where
  | load (role : Role) (p : Program) (w : World) : Reachable (Activation.load role p w).machine
  | execute {m : Machine} (h : Reachable m) (w : World) (number : Int) :
    Reachable ((execute number).final ⟨m, w⟩).machine

theorem Machine.Reachable.atRest {m : Machine} (h : m.Reachable) : m.AtRest := by
  induction h with
  | load role p w => exact Activation.atRest_load role p w
  | execute _ w number ih => exact atRest_execute (a := ⟨_, w⟩) ih number

/-- **The stacks are balanced throughout every run and empty after it.** Loading a program and
executing functions leads to the machine `m`. At every point of the next run the stacks keep their
limits, and the saved words are those that the active functions need. That is so where a fault stops
the run, too. An instruction that leaves a function does not cause one. -/
theorem stacks_balanced {m : Machine} (hm : m.Reachable) (w : World) (number : Int) :
    (∀ p, RunPoint number ⟨m, w⟩ p →
      p.state.machine.control.Balanced ∧
      (∃ s m', p.state.machine.leave = .ok (s, m')) ∧
      (∀ value b, fetch p.next p.state = .ok (.leave value) b →
        ∃ r c, step m.depth p.next p.state = .ok r c) ∧
      ∀ e b, step m.depth p.next p.state = .error e b → b.machine.control.Balanced) ∧
    ((execute number).final ⟨m, w⟩).machine.AtRest := by
  refine ⟨fun p hp => ?_, atRest_execute (a := ⟨m, w⟩) hm.atRest number⟩
  obtain ⟨hs, hdepth⟩ := hp.stacked hm.atRest
  refine ⟨balanced_of_stacked hs, leave_of_stacked hs hdepth, ?_, ?_⟩
  · intro value b hfetch
    have hok := hp.step_of_leave hm.atRest hfetch
    exact hok
  · intro e b hstep
    rw [(effects_of_step_error hstep).control_eq]
    exact balanced_of_stacked hs

theorem stacks_balanced_overlapping :
    ∃ p, RunPoint 1 overlappingLoaded p ∧ p.depth = 2 ∧ p.state.machine.control.Balanced := by
  have hp : RunPoint 1 overlappingLoaded ⟨3, _⟩ := .advance (.start (p := ⟨1, _⟩) rfl) rfl
  have hm : overlappingLoaded.machine.Reachable := .load _ _ _
  exact ⟨_, hp, rfl, ((stacks_balanced hm overlappingLoaded.world 1).1 _ hp).1⟩

end QuakeVm
