import QuakeVm.Proofs.Activity
import QuakeVm.Proofs.Handles
import QuakeVm.Proofs.Sandbox
import QuakeVm.Proofs.Single
import QuakeVm.Proofs.Variables

/-!
# Globals follow their variables

A program lists the globals that follow variables, and each of them takes a window of registers. A global
whose window overlaps no other one is written for its own variable only. So after a machine has been told
of some variables, in whichever order, the first global of each of their names holds what the variable
is now (`Tuned.holds_updateAll`).

A host tells both machines of the variables on the list of changes when a function has been executed,
whether it ended or failed, and of a variable that is set from outside. The list has all variables that
the function changed, also those that it changed back. Hence the globals of both machines follow.

The strings of the engine stay where they are in the table, and variables keep number and text together.
Both come from what hosts do (`Host.Orderly`).
-/

namespace QuakeVm

open QuakeVm.Action Activation

/-! ## Words of a text -/

/-- The number of a word of a text. Words are what lies between blanks, and a word that is missing counts
as zero. -/
def Cvar.componentOf (text : String) (i : Nat) : Float32 :=
  (((text.toList.splitOnP Text.isBlank).filter (· ≠ []))[i]?.map
    fun word => valueOf (String.ofList word)).getD 0

theorem Vec3.ofWords_eq (text : String) :
    ofWords text = ⟨Cvar.componentOf text 0, Cvar.componentOf text 1, Cvar.componentOf text 2⟩ := by
  have hget : ∀ i, ((Text.words Text.isBlank text).map
      fun w => Number.scanSingle (Bytes.ofText w)).getD i 0 = Cvar.componentOf text i := by
    intro i
    have hfilter : (fun l : List Char => !l.isEmpty) = fun l => decide (l ≠ []) := by
      funext l
      cases l <;> rfl
    unfold Text.words Cvar.componentOf
    rw [Text.fields_eq_splitOnP, hfilter, List.map_map, List.getD_eq_getElem?_getD,
      List.getElem?_map]
    rfl
  unfold ofWords ofList
  rw [hget, hget, hget]

/-! ## Strings of the engine -/

namespace StringTable

variable {t : StringTable}

/-- The table of a program at some time. -/
def Reachable (t : StringTable) : Prop := ∃ constants ops, t = after constants ops

theorem reachable_ofConstants (constants : Bytes) : (ofConstants constants).Reachable :=
  ⟨constants, [], rfl⟩

theorem Reachable.consistent (h : t.Reachable) : t.Consistent := by
  obtain ⟨constants, ops, rfl⟩ := h
  exact consistent_after constants ops

theorem Reachable.apply (h : t.Reachable) (op : Operation) : (t.apply op).Reachable := by
  obtain ⟨constants, ops, rfl⟩ := h
  exact ⟨constants, ops ++ [op], by unfold after; rw [List.foldl_append]; rfl⟩

/-- A word is the handle of an engine string with a text: it is read as that text, and the handle fits
into a word unless the table is larger than words can tell. -/
def Names (t : StringTable) (w : Int32) (s : Bytes) : Prop :=
  ∃ i, t.known[i]? = some (.engine s) ∧ t.get (handle i) = s ∧ w = Int32.ofInt (handle i) ∧
    (t.known.size < 0x7fffffff → w.toInt = handle i)

/-- The handle of a string of the engine names this string. -/
theorem names_of_known {i : Nat} {s : Bytes} (h : t.known[i]? = some (.engine s)) :
    t.Names (Int32.ofInt (handle i)) s := by
  refine ⟨i, h, get_handle h, rfl, fun hsize => ?_⟩
  have hlt : i < t.known.size := (Array.getElem?_eq_some_iff.mp h).1
  rw [Int32.toInt_ofInt_of_le] <;> unfold handle <;> omega

/-- A string that the engine adds is named by the handle it gets, up to its first null. -/
theorem names_engine (ht : t.Reachable) (s : Bytes) :
    (t.engine s).2.Names (Int32.ofInt (t.engine s).1) (Bytes.untilNul s) := by
  obtain ⟨i, hi, hentry, -⟩ := store_place ht.consistent (.engine s)
  rw [show (t.engine s).1 = handle i from hi]
  exact names_of_known hentry

end StringTable

/-! ## Windows of registers -/

namespace Autocvar

/-- The number of registers of a global; only those of three types follow their variables. -/
def width (e : Autocvar) : Nat :=
  match e.type with
  | .float | .string => 1
  | .vector => 3
  | _ => 0

/-- A register belongs to a global. -/
def Covers (e : Autocvar) (i : Nat) : Prop := e.offset ≤ i ∧ i < e.offset + e.width

end Autocvar

namespace Machine

variable {m m' : Machine} {e e' : Autocvar} {c : Cvars} {v : Cvar} {name text : String}

/-- A global has its registers for itself: they are there, and no other global that follows a variable
has any of them. -/
def Separate (m : Machine) (e : Autocvar) : Prop :=
  e.offset + e.width ≤ m.registers.size ∧
    ∀ e' ∈ m.autocvars, e' ≠ e → ∀ i, e.Covers i → ¬ e'.Covers i

/-- A global holds what a variable with some text is to it: the number of the text, the numbers of its
first three words, or the text up to its first NUL. -/
def Holds (m : Machine) (e : Autocvar) (text : String) : Prop :=
  match e.type with
  | .float => m.registers.float e.offset = Cvar.valueOf text
  | .vector => m.registers.vector e.offset =
      ⟨Cvar.componentOf text 0, Cvar.componentOf text 1, Cvar.componentOf text 2⟩
  | .string => m.strings.Names (m.registers.get e.offset) (Bytes.untilNul (Bytes.ofText text))
  | _ => True

theorem size_assign (m : Machine) (e : Autocvar) (v : Cvar) :
    (m.assign e v).registers.size = m.registers.size := by
  unfold assign
  split <;> simp

/-- Only the window of a global is written. -/
theorem get_assign {i : Nat} (hi : ¬ e.Covers i) (m : Machine) (v : Cvar) :
    (m.assign e v).registers.get i = m.registers.get i := by
  unfold Autocvar.Covers Autocvar.width at hi
  unfold assign
  cases htype : e.type <;> rw [htype] at hi
  case float =>
    have hne : e.offset ≠ i := by dsimp only at hi; omega
    exact Registers.get_setFloat_ne hne _
  case vector => exact Registers.get_setVector_of_not hi _
  case string =>
    have hne : e.offset ≠ i := by dsimp only at hi; omega
    exact Registers.get_set_ne _ _ hne

/-- An assignment adds one string of the engine at most. -/
theorem strings_assign (m : Machine) (e : Autocvar) (v : Cvar) :
    (m.assign e v).strings = m.strings ∨ ∃ s, (m.assign e v).strings = m.strings.apply (.engine s) := by
  unfold assign
  split
  · exact .inl rfl
  · exact .inl rfl
  · exact .inr ⟨_, rfl⟩
  · exact .inl rfl

theorem reachable_assign (hm : m.strings.Reachable) (e : Autocvar) (v : Cvar) :
    (m.assign e v).strings.Reachable := by
  rcases m.strings_assign e v with heq | ⟨s, heq⟩
  · exact heq ▸ hm
  · exact heq ▸ hm.apply _

/-- A word that names an engine string does so after a global was set. -/
theorem names_assign (hm : m.strings.Reachable) {w : Int32} {s : Bytes} (h : m.strings.Names w s)
    (e : Autocvar) (v : Cvar) : (m.assign e v).strings.Names w s := by
  rcases m.strings_assign e v with heq | ⟨s', heq⟩
  · exact heq ▸ h
  · obtain ⟨i, hi, -, rfl, -⟩ := h
    rw [heq]
    exact StringTable.names_of_known (StringTable.known_apply hm.consistent hi trivial)

/-- A global that is set holds its variable. -/
theorem holds_assign (hm : m.strings.Reachable) (hv : v.value = Cvar.valueOf v.text)
    (he : e.offset + e.width ≤ m.registers.size) : (m.assign e v).Holds e v.text := by
  unfold Autocvar.width at he
  unfold Holds assign
  cases htype : e.type <;> rw [htype] at he
  case float => exact (Registers.float_setFloat he v.value).trans hv
  case vector => exact (Registers.vector_setVector he _).trans (Vec3.ofWords_eq v.text)
  case string =>
    show StringTable.Names _ (Registers.get (Registers.set _ _ _) _) _
    rw [Registers.get_set_self _ _ he]
    exact StringTable.names_engine hm _
  all_goals trivial

/-- A global that is set leaves a global alone which has none of its registers. -/
theorem Holds.assign (h : m.Holds e text) (hm : m.strings.Reachable)
    (hseparate : ∀ i, e.Covers i → ¬ e'.Covers i) (v : Cvar) : (m.assign e' v).Holds e text := by
  have hget : ∀ i, e.offset ≤ i → i < e.offset + e.width →
      (m.assign e' v).registers.get i = m.registers.get i :=
    fun i hle hlt => get_assign (hseparate i ⟨hle, hlt⟩) m v
  unfold Autocvar.width at hget
  unfold Holds at h ⊢
  cases htype : e.type <;> rw [htype] at h hget
  case float =>
    unfold Registers.float at h ⊢
    rw [hget _ (Nat.le_refl _) (Nat.lt_succ_self _)]
    exact h
  case vector =>
    dsimp only at hget
    unfold Registers.vector Registers.float at h ⊢
    rw [hget _ (Nat.le_refl _) (by omega), hget _ (by omega) (by omega),
      hget _ (by omega) (by omega)]
    exact h
  case string =>
    dsimp only at h ⊢
    rw [hget _ (Nat.le_refl _) (Nat.lt_succ_self _)]
    exact names_assign hm h e' v
  all_goals trivial

/-! ## Telling a machine of variables -/

/-- To tell a machine of a variable sets a global of that name, if anything. -/
theorem update_cases (m : Machine) (c : Cvars) (name : String) :
    m.update c name = m ∨
      ∃ e ∈ m.autocvars, ∃ v, e.name = name ∧ m.update c name = m.assign e v := by
  unfold update
  cases hfind : m.autocvars.find? (·.name == name) with
  | none => exact .inl rfl
  | some e =>
    have hname := List.find?_some (p := fun e : Autocvar => e.name == name) hfind
    dsimp only
    unfold synchronize
    cases c.get? e.name with
    | none => exact .inl rfl
    | some v => exact .inr ⟨e, List.mem_of_find?_eq_some hfind, v, beq_iff_eq.mp hname, rfl⟩

theorem reachable_update (hm : m.strings.Reachable) (c : Cvars) (name : String) :
    (m.update c name).strings.Reachable := by
  rcases m.update_cases c name with heq | ⟨e, -, v, -, heq⟩ <;> rw [heq]
  · exact hm
  · exact reachable_assign hm e v

/-- A machine that is told of a variable has the globals that it had, and as many registers. -/
theorem update_frame (m : Machine) (c : Cvars) (name : String) :
    (m.update c name).autocvars = m.autocvars ∧
      (m.update c name).registers.size = m.registers.size := by
  rcases m.update_cases c name with heq | ⟨e, -, v, -, heq⟩ <;> rw [heq]
  · exact ⟨rfl, rfl⟩
  · refine ⟨?_, m.size_assign e v⟩
    obtain ⟨registers, strings, heq⟩ := m.sameButGlobals_assign e v
    rw [heq]

/-- A machine with the globals set that follow some variables. -/
def updateAll (m : Machine) (c : Cvars) (names : List String) : Machine :=
  names.foldl (fun m name => m.update c name) m

/-- Updates change the contents of registers, not their number. -/
theorem updateAll_frame (m : Machine) (c : Cvars) (names : List String) :
    (m.updateAll c names).autocvars = m.autocvars ∧
      (m.updateAll c names).registers.size = m.registers.size := by
  induction names generalizing m with
  | nil => exact ⟨rfl, rfl⟩
  | cons name rest ih =>
    obtain ⟨hautocvars, hsize⟩ := m.update_frame c name
    obtain ⟨hautocvars', hsize'⟩ := ih (m.update c name)
    exact ⟨hautocvars'.trans hautocvars, hsize'.trans hsize⟩

/-- The first global of a name has its registers for itself. -/
structure Tuned (m : Machine) (name : String) (e : Autocvar) : Prop where
  strings : m.strings.Reachable
  find : m.autocvars.find? (·.name == name) = some e
  separate : m.Separate e

namespace Tuned

theorem name_eq (h : m.Tuned name e) : e.name = name :=
  beq_iff_eq.mp (List.find?_some (p := fun e : Autocvar => e.name == name) h.find)

theorem update (h : m.Tuned name e) (c : Cvars) (other : String) :
    (m.update c other).Tuned name e := by
  obtain ⟨hautocvars, hsize⟩ := m.update_frame c other
  refine ⟨reachable_update h.strings c other, ?_, ?_⟩
  · rw [hautocvars]
    exact h.find
  · unfold Separate
    rw [hsize, hautocvars]
    exact h.separate

/-- After an update the globals hold the value of the variable. -/
theorem holds_update (h : m.Tuned name e) (hget : c.get? name = some v)
    (hv : v.value = Cvar.valueOf v.text) : (m.update c name).Holds e v.text := by
  have hupdate : m.update c name = m.assign e v := by
    unfold Machine.update synchronize
    rw [h.find]
    dsimp only
    rw [h.name_eq, hget]
  rw [hupdate]
  exact holds_assign h.strings hv h.separate.1

/-- An update of one variable leaves the globals of the others. -/
theorem holds_update_ne {other : String} (h : m.Tuned name e) (hholds : m.Holds e text)
    (hne : other ≠ name) (c : Cvars) : (m.update c other).Holds e text := by
  rcases m.update_cases c other with heq | ⟨e', he', v, hname, heq⟩ <;> rw [heq]
  · exact hholds
  · refine hholds.assign h.strings (h.separate.2 e' he' ?_) v
    rintro rfl
    exact hne (hname.symm.trans h.name_eq)

/-- **A machine that was told of a variable holds it**, whichever variables it is told of besides. -/
theorem holds_updateAll {names : List String} (h : m.Tuned name e) (hget : c.get? name = some v)
    (hv : v.value = Cvar.valueOf v.text) (hm : m.Holds e v.text ∨ name ∈ names) :
    (m.updateAll c names).Holds e v.text := by
  induction names generalizing m with
  | nil => exact hm.elim id nofun
  | cons other rest ih =>
    refine ih (h.update c other) ?_
    by_cases hother : other = name
    · subst hother
      exact .inl (h.holds_update hget hv)
    · refine hm.imp (fun hholds => h.holds_update_ne hholds hother c) fun hmem => ?_
      exact (List.mem_cons.mp hmem).resolve_left (Ne.symm hother)

end Tuned

end Machine

/-! ## Strings and variables of a host -/

theorem reachable_assignCvar {a : Activation} (ha : a.machine.strings.Reachable)
    (name text : String) : (a.assignCvar name text).machine.strings.Reachable := by
  unfold assignCvar
  dsimp only
  split
  · exact Machine.reachable_update ha _ _
  · exact ha

/-- Programs change strings and variables by the operations on them. -/
theorem invariant_reachable : Invariant (fun _ => True)
    fun a => a.machine.strings.Reachable ∧ a.world.cvars.Reachable where
  effect := by
    intro a b h ha
    cases h with
    | strings op => exact ⟨ha.1.apply op, ha.2⟩
    | assignCvar name text =>
      refine ⟨reachable_assignCvar ha.1 name text, ?_⟩
      have hset := World.reachable_setCvar ha.2 name text
      unfold assignCvar
      dsimp only
      split <;> exact hset
    | world w h => exact ⟨ha.1, h.cvars_eq ▸ ha.2⟩
    | _ => exact ha
  calls _ _ _ _ _ _ ha := ha

namespace Activation

theorem strings_link (s : Activation) : s.link.machine.strings = s.machine.strings := by
  unfold link
  dsimp only
  split <;> rfl

theorem reachable_declare {s : Activation} (hs : s.machine.strings.Reachable) (e : Autocvar) :
    (s.declare e).machine.strings.Reachable := by
  unfold declare
  split
  · show (s.machine.synchronize _ e).strings.Reachable
    unfold Machine.synchronize
    split
    · exact Machine.reachable_assign hs e _
    · exact hs
  · cases autocvarComplaint? s.machine e <;> dsimp only <;> split <;> exact hs

theorem reachable_declareAll {s : Activation} (hs : s.machine.strings.Reachable) :
    s.declareAll.machine.strings.Reachable := by
  have hfold : ∀ (found : List Autocvar) (s : Activation), s.machine.strings.Reachable →
      (found.foldl declare s).machine.strings.Reachable := by
    intro found
    induction found with
    | nil => exact fun s hs => hs
    | cons e rest ih => exact fun s hs => ih _ (reachable_declare hs e)
  exact hfold (Autocvar.ofProgram s.machine.program) s hs

theorem reachable_load (role : Role) (p : Program) (w : World) :
    (load role p w).machine.strings.Reachable := by
  have hlink : (Activation.mk (.new role p w.cvars) w).link.machine.strings.Reachable := by
    rw [strings_link]
    exact StringTable.reachable_ofConstants p.strings
  exact reachable_declareAll hlink

end Activation

/-- Declaring variables does not leave the reachable ones. -/
theorem Cvars.Extends.reachable {c c' : Cvars} (h : c.Extends c') (hc : c.Reachable) :
    c'.Reachable := by
  induction h with
  | refl => exact hc
  | follow _ name default ih => exact ih.follow name default

namespace Host

variable {h : Host} {role : Role} {name : String}

/-- The strings of the machines and the variables come from operations on them. -/
structure Orderly (h : Host) : Prop where
  strings : ∀ {role m}, h.machine? role = some m → m.strings.Reachable
  cvars : h.world.cvars.Reachable

theorem orderly_new (directory : String) (disk : Disk) : (new directory disk).Orderly where
  strings {role m} hm := by cases role <;> cases hm
  cvars := by
    unfold new World.new
    dsimp only
    exact Cvars.reachable_base.extensions

theorem Orderly.surroundings (hh : h.Orderly) {w : World} (hw : w.cvars.Reachable) :
    { h with world := w }.Orderly where
  strings hm := by
    rw [machine?_withWorld] at hm
    exact hh.strings hm
  cvars := hw

theorem Orderly.setMachine (hh : h.Orderly) {m? : Option Machine}
    (hm? : ∀ m, m? = some m → m.strings.Reachable) (role : Role) : (h.setMachine role m?).Orderly where
  strings {other m} hm := by
    rw [machine?_setMachine] at hm
    split at hm
    · exact hm? m hm
    · exact hh.strings hm
  cvars := by
    rw [world_setMachine]
    exact hh.cvars

/-- An action that keeps the strings and the variables in order keeps the host in order. -/
theorem Orderly.act {α : Type} (hh : h.Orderly) {x : Action α}
    (hx : ∀ m, m.strings.Reachable → (x.final ⟨m, h.world⟩).machine.strings.Reachable ∧
      (x.final ⟨m, h.world⟩).world.cvars.Reachable) (role : Role) : (h.act role x).2.Orderly := by
  cases hm : h.machine? role with
  | none =>
    rw [act_of_none hm]
    exact hh
  | some m =>
    obtain ⟨hstrings, hcvars⟩ := hx m (hh.strings hm)
    rw [act_of_some hm]
    refine (hh.surroundings hcvars).setMachine (fun m' hm' => ?_) role
    cases hm'
    exact hstrings

theorem Orderly.run (hh : h.Orderly) (role : Role) (number : Int) :
    (h.act role (QuakeVm.execute number)).2.Orderly :=
  hh.act (fun m hm => invariant_reachable.execute (writesOnly_true number ⟨m, h.world⟩)
    ⟨hm, hh.cvars⟩) role

theorem Orderly.confined {α : Type} (hh : h.Orderly) (role : Role) {x : Action α} (hx : Confined x) :
    (h.act role x).2.Orderly :=
  hh.act (fun m hm => invariant_reachable.effects (hx.effects ⟨m, h.world⟩) ⟨hm, hh.cvars⟩) role

end Host

theorem cvars_activate (w : World) (role : Role) : (Host.activate w role).2.cvars = w.cvars := by
  unfold Host.activate Host.switch
  cases w.active <;> rfl

/-- **What hosts do** to strings and variables, they do by the operations on them. -/
theorem Host.orderly_carryOut (s : Scene) (d : Deed) (hs : s.host.Orderly) :
    (s.carryOut d).host.Orderly := by
  cases d with
  | enter role =>
    rw [Scene.carryOut_enter]
    refine hs.surroundings ?_
    rw [cvars_activate]
    exact hs.cvars
  | force role => exact hs.surroundings hs.cvars
  | drop =>
    obtain ⟨h, guards⟩ := s
    rcases guards with _ | ⟨_ | previous, rest⟩
    · exact hs
    · exact hs
    · exact hs.surroundings hs.cvars
  | run role name =>
    cases hm : s.host.machine? role with
    | none =>
      rw [Scene.carryOut_run_of_none hm]
      exact hs
    | some m =>
      rw [Scene.carryOut_run hm]
      cases m.findFunction name with
      | error e => exact hs.confined role (x := (fail e : Action Unit)) inferInstance
      | ok number => exact hs.run role number
  | update role name =>
    refine hs.setMachine (fun m hm => ?_) role
    obtain ⟨m', hm', rfl⟩ := Option.map_eq_some_iff.mp hm
    exact Machine.reachable_update (hs.strings hm') _ _
  | shutDown role =>
    cases hm : s.host.machine? role with
    | none =>
      rw [Scene.carryOut_shutDown_of_none hm]
      exact hs
    | some m =>
      rw [Scene.carryOut_shutDown hm]
      obtain ⟨log, heq⟩ := Host.shutDown_eq s.host.world m
      refine (hs.surroundings ?_).setMachine (fun m' hm' => by cases hm') role
      show (Host.shutDown s.host.world m).cvars.Reachable
      rw [heq]
      exact hs.cvars
  | install role p =>
    obtain ⟨cvars, log, hextends, heq⟩ := declares_load role p s.host.world
    refine (hs.surroundings ?_).setMachine (fun m hm => ?_) role
    · rw [heq]
      exact hextends.reachable hs.cvars
    · cases hm
      exact reachable_load role p _
  | assign name text => exact hs.surroundings (World.reachable_setCvar hs.cvars name text)
  | clear => exact hs.surroundings hs.cvars
  | note level text => exact hs.surroundings hs.cvars

/-! ## Telling both machines -/

namespace Scene

variable {s : Scene} {role : Role}

/-- Updates of a machine set its globals one after the other. -/
theorem carryOutAll_updates {m : Machine} (hm : s.host.machine? role = some m)
    (names : List String) :
    s.carryOutAll (names.map (.update role ·)) = s.mapHost fun h =>
      h.setMachine role (some (m.updateAll h.world.cvars names)) := by
  induction names generalizing s m with
  | nil =>
    show s = ⟨s.host.setMachine role (some m), s.guards⟩
    rw [Host.setMachine_self hm]
  | cons name rest ih =>
    have hupdate : s.carryOut (.update role name) = s.mapHost fun h =>
        h.setMachine role (some (m.update h.world.cvars name)) := by
      show (⟨s.host.setMachine role ((s.host.machine? role).map _), s.guards⟩ : Scene) = _
      rw [hm]
      rfl
    rw [List.map_cons, carryOutAll_cons, hupdate, ih (Host.machine?_setMachine_self _ _ _)]
    unfold mapHost
    dsimp only
    rw [Host.setMachine_setMachine, Host.world_setMachine]
    rfl

/-- A program that is told of variables has its globals set, if it is there. No variable changes, nor
the list of changes, nor the other program. -/
theorem carryOutAll_informDeeds {s' : Scene} {h : Host} (names : List String) (role : Role)
    (hs : s.host.machine? role = h.machine? role)
    (hs' : s.carryOutAll (h.informDeeds names role) = s') :
    s'.host.world.cvars = s.host.world.cvars ∧ s'.host.world.changed = s.host.world.changed ∧
      ∀ other, s'.host.machine? other = if other = role then
        (h.machine? role).map (·.updateAll s.host.world.cvars names) else s.host.machine? other := by
  unfold Host.informDeeds at hs'
  cases hm : h.machine? role with
  | none =>
    rw [hm, if_neg (by decide)] at hs'
    rw [hm] at hs
    subst hs'
    refine ⟨rfl, rfl, fun other => ?_⟩
    split
    next heq => rw [heq]; exact hs
    next => rfl
  | some m =>
    have hforced : (s.carryOut (.force role)).host.machine? role = some m := by
      rw [← hm, ← hs]
      exact Host.machine?_withWorld _ _ _
    rw [hm, if_pos Option.isSome_some, List.cons_append, carryOutAll_cons, carryOutAll_append,
      carryOutAll_updates hforced] at hs'
    have hhost : s'.host = (s.host.mapWorld fun w =>
        Host.restore (Host.force w role) s.active).setMachine role
          (some (m.updateAll s.host.world.cvars names)) := by
      rw [← hs']
      show ((s.host.mapWorld (Host.force · role)).setMachine role
        (some (m.updateAll s.host.world.cvars names))).mapWorld (Host.restore · s.active) = _
      rw [Host.mapWorld_setMachine]
      rfl
    rw [hhost, Host.world_setMachine]
    refine ⟨rfl, rfl, fun other => ?_⟩
    rw [Host.machine?_setMachine]
    exact if_congr Iff.rfl rfl (Host.machine?_withWorld _ _ _)

end Scene

namespace Host

variable {h : Host} {names : List String} {role : Role} {name : String}

/-- Each machine is updated, and the variables stay what they were. -/
theorem informBoth_spec (h : Host) (names : List String) :
    (h.informBoth names).world.cvars = h.world.cvars ∧
      (h.informBoth names).world.changed = h.world.changed ∧
      ∀ role, (h.informBoth names).machine? role =
        (h.machine? role).map (·.updateAll h.world.cvars names) := by
  obtain ⟨hcvars, hchanged, hmachine⟩ :=
    Scene.carryOutAll_informDeeds (s := ⟨h, []⟩) names .server rfl rfl
  obtain ⟨hcvars', hchanged', hmachine'⟩ :=
    Scene.carryOutAll_informDeeds names .client (hmachine .client) rfl
  unfold informBoth after informBothDeeds
  rw [Scene.carryOutAll_append]
  refine ⟨hcvars'.trans hcvars, hchanged'.trans hchanged, fun role => ?_⟩
  rw [hmachine', hcvars]
  cases role with
  | server => exact hmachine .server
  | client => rfl

/-- In both machines the first global of a name holds the variable, if it has its registers for itself. -/
def Follows (h : Host) (name : String) : Prop :=
  ∃ v, h.world.cvars.get? name = some v ∧ ∀ role m e, h.machine? role = some m →
    m.autocvars.find? (·.name == name) = some e → m.Separate e → m.Holds e v.text

/-- A variable that the machines are told of is followed by both. -/
theorem Orderly.follows_informBoth (hh : h.Orderly) (hname : name ∈ names)
    (hsome : (h.world.cvars.text? name).isSome) : (h.informBoth names).Follows name := by
  unfold Cvars.text? at hsome
  rw [Option.isSome_map] at hsome
  obtain ⟨v, hv⟩ := Option.isSome_iff_exists.mp hsome
  have hvalue := hh.cvars.value_eq v (List.mem_of_find?_eq_some hv)
  obtain ⟨hcvars, -, hmachine⟩ := h.informBoth_spec names
  refine ⟨v, by rw [hcvars, hv], fun role m' e hm' hfind hseparate => ?_⟩
  rw [hmachine] at hm'
  obtain ⟨m, hm, rfl⟩ := Option.map_eq_some_iff.mp hm'
  obtain ⟨hautocvars, hsize⟩ := m.updateAll_frame h.world.cvars names
  unfold Machine.Separate at hseparate
  rw [hautocvars] at hfind hseparate
  rw [hsize] at hseparate
  exact Machine.Tuned.holds_updateAll ⟨hh.strings hm, hfind, hseparate⟩ hv hvalue (.inr hname)

/-- To tell both programs what one of them changed is to clear the list and to tell them of what was
on it. -/
theorem informChanged_eq (h : Host) (hchanged : h.world.changed ≠ []) :
    h.informChanged =
      (h.mapWorld fun w => { w with changed := [] }).informBoth h.world.changed := by
  unfold informChanged syncDeeds
  rw [if_neg (by simpa using hchanged)]
  rfl

/-- After the machines are told of the changes none is left to tell. -/
theorem changed_informChanged (h : Host) : h.informChanged.world.changed = [] := by
  by_cases hchanged : h.world.changed = []
  · unfold informChanged syncDeeds
    rw [hchanged]
    rfl
  · rw [informChanged_eq h hchanged]
    exact (informBoth_spec _ _).2.1

theorem Orderly.follows_informChanged (hh : h.Orderly) (hname : name ∈ h.world.changed)
    (hsome : (h.world.cvars.text? name).isSome) : h.informChanged.Follows name := by
  have hcleared : (h.mapWorld fun w => { w with changed := [] }).Orderly := hh.surroundings hh.cvars
  rw [informChanged_eq h (List.ne_nil_of_mem hname)]
  exact hcleared.follows_informBoth hname hsome

/-! ## Functions that change variables -/

/-- A function changes a variable: somewhere in its execution the text is another one than before. -/
def Changes (h : Host) (role : Role) (function name : String) : Prop :=
  ∃ m number b, h.machine? role = some m ∧ h.world.active = none ∧
    m.findFunction function = .ok number ∧ Passes number ⟨m, (activate h.world role).2⟩ b ∧
      b.world.cvars.text? name ≠ h.world.cvars.text? name

/-- Where no program is active, a function that is found is run under a guard. -/
theorem world_after_runDeeds {m : Machine} {number : Int} (hm : h.machine? role = some m)
    (hactive : h.world.active = none) {function : String}
    (hfind : m.findFunction function = .ok number) :
    (h.after (h.runDeeds role function)).world =
      restore ((QuakeVm.execute number).final ⟨m, (activate h.world role).2⟩).world none := by
  have hentered : Scene.carryOut ⟨h, []⟩ (.enter role) =
      ⟨{ h with world := (activate h.world role).2 }, [.holds none]⟩ := by
    unfold Scene.carryOut Scene.attempt
    dsimp only
    unfold activate switch Scene.active
    rw [hactive]
  have hm' : { h with world := (activate h.world role).2 }.machine? role = some m := by
    rw [machine?_withWorld]
    exact hm
  unfold after runDeeds
  rw [hm, hactive, if_pos Option.isSome_some, if_neg (by decide), Scene.carryOutAll_cons, hentered,
    Scene.carryOutAll_cons, Scene.carryOut_run hm']
  show restore (act _ role _).2.world none = _
  rw [act_of_some hm', world_setMachine, Scene.final_find, hfind]

/-- A variable that a run changes is followed when the run is over. -/
theorem Changes.follows {function : String} (hchanges : h.Changes role function name)
    (hh : h.Orderly) : (h.execute role function).2.Follows name := by
  obtain ⟨m, number, b, hm, hactive, hfind, hpasses, hne⟩ := hchanges
  have horderly := invariant_after orderly_carryOut hh (h.runDeeds role function)
  have hworld := world_after_runDeeds hm hactive hfind
  rw [← cvars_activate h.world role] at hne
  obtain ⟨hmem, hsome⟩ := hpasses.mem_changed hne
  rw [execute_snd]
  refine horderly.follows_informChanged ?_ ?_
  · rw [hworld]
    exact hmem
  · rw [hworld]
    exact hsome

/-- The hosts that come about where from outside the strings of machines and the variables change by
the operations on them. -/
def Possible (h : Host) : Prop :=
  h.Arises (fun m m' => m.strings.Reachable → m'.strings.Reachable) fun _ w => w.cvars.Reachable

/-- Every possible host is in order. -/
theorem Possible.orderly (hh : h.Possible) : h.Orderly :=
  hh.induction orderly_new orderly_carryOut (fun hh => hh.run)
    (fun hh role _ _ hx => hh.confined role hx)
    (fun hh role f hf => hh.act (x := modifyMachine f) (fun m hm => ⟨hf m hm, hh.cvars⟩) role)
    (fun hh _ => hh.surroundings)

theorem changed_execute (h : Host) (role : Role) (function : String) :
    (h.execute role function).2.world.changed = [] := by
  rw [execute_snd]
  exact changed_informChanged _

/-- A variable that the host sets is followed at once. -/
theorem Orderly.follows_setCvar (hh : h.Orderly) {text : String}
    (hset : (h.setCvar name text).1 = true) : (h.setCvar name text).2.Follows name := by
  have horderly := hh.surroundings (World.reachable_setCvar hh.cvars name text)
  change (h.world.setCvar name text).1 = true at hset
  have hinform : (h.setCvar name text).2 =
      { h with world := (h.world.setCvar name text).2 }.informBoth [name] := by
    unfold setCvar setCvarDeeds
    rw [if_pos hset]
    rfl
  rw [hinform]
  rcases h.world.setCvar_eq name text with ⟨log, heq⟩ | ⟨hsome, heq⟩ <;>
    rw [heq] at hset horderly ⊢
  · cases hset
  · refine horderly.follows_informBoth (List.mem_singleton.mpr rfl) ?_
    exact (Cvars.isSome_text?_modify _ _ _ (Cvar.name_withText text)).trans hsome

end Host

/-- **Globals follow their variables.** After a function has been executed, in whichever way it ended, no
variable is on the list of changes, and the globals of both machines hold every variable that the
function changed. So they do a variable that was set from outside. The number of a variable is that of
its text. -/
theorem globals_follow :
    (∀ {h : Host}, h.Possible → ∀ role function,
      (h.execute role function).2.world.changed = [] ∧
        ∀ name, h.Changes role function name → (h.execute role function).2.Follows name) ∧
    (∀ {h : Host}, h.Possible → ∀ name text, (h.setCvar name text).1 = true →
      (h.setCvar name text).2.Follows name) ∧
    (∀ {h : Host}, h.Possible → h.world.cvars.Reachable) ∧
    ∀ {c : Cvars}, c.Reachable → ∀ v ∈ c.vars, v.value = Cvar.valueOf v.text := by
  refine ⟨fun hh role function => ⟨Host.changed_execute _ role function, fun name hchanges => ?_⟩,
    fun hh name text hset => hh.orderly.follows_setCvar hset, fun hh => hh.orderly.cvars,
    fun hc => hc.value_eq⟩
  exact hchanges.follows hh.orderly

/-- A program whose function sets a variable that a global of the program follows. -/
def tuning : Program where
  strings := 0 :: Bytes.ofText "main" ++ 0 :: Bytes.ofText "autocvar_x" ++ [0, 0x35, 0]
  statements := #[{}, { op := Opcode.call2.number, a := 28 }, {}]
  functions := #[{}, { firstStatement := -72 }, { firstStatement := 1, name := 1 }]
  globaldefs := #[{ type := 2, offset := 29, name := 6 }]
  globals := ((Array.replicate 28 0).set! 4 15).set! 7 17 ++ #[1, 0]

/-- A world with one variable. -/
def tunedWorld : World := { World.new "game" .empty with cvars := Cvars.register ⟨[]⟩ "x" "1" 0 "" }

/-- The program is the server and the client of a host. The server has ten statements to run, and no
builtin is bound yet. -/
def tuned : Host :=
  let h := { Host.new "game" .empty with world := tunedWorld }
  let h := (h.perform (.load .server tuning)).perform (.load .client tuning)
  (h.act .server (modifyMachine fun m => { m with limit := 10, slots := .replicate 80 none })).2

theorem possible_tuned : tuned.Possible := by
  have hnew : { Host.new "game" .empty with world := tunedWorld }.Possible :=
    (Host.Arises.new "game" .empty).surroundings (Cvars.Reachable.empty.register _ _ _ _)
  exact ((hnew.perform (.load .server tuning)).perform (.load .client tuning)).adjust .server
    fun _ hm => hm

theorem changes_tuned : tuned.Changes .server "main" "x" := by
  have hfind : (tuned.machine? .server).map (fun m => (m.findFunction "main").toOption) =
      some (some 2) := by decide +kernel
  have htext : (tuned.machine? .server).map (fun m => ((execute 2).final
      ⟨m, (Host.activate tuned.world .server).2⟩).world.cvars.text? "x") = some (some "5") := by
    decide +kernel
  have hbefore : tuned.world.cvars.text? "x" = some "1" := by decide +kernel
  cases hm : tuned.machine? .server with
  | none => rw [hm] at hfind; cases hfind
  | some m =>
    rw [hm] at hfind htext
    have hfound : (m.findFunction "main").toOption = some 2 := Option.some.inj hfind
    have hafter : ((execute 2).final
        ⟨m, (Host.activate tuned.world .server).2⟩).world.cvars.text? "x" = some "5" :=
      Option.some.inj htext
    refine ⟨m, 2, _, hm, by decide +kernel, ?_, .atEnd, ?_⟩
    · generalize m.findFunction "main" = r at hfound
      cases r with
      | error e => cases hfound
      | ok number => cases hfound; rfl
    · rw [hbefore, hafter]
      decide

/-- A machine with one global that follows a variable, and that variable, in a host. -/
theorem Host.Follows.holds_of_singleton {h : Host} {role : Role} {e : Autocvar} {text : String}
    (hfollows : h.Follows e.name) (htext : h.world.cvars.text? e.name = some text)
    (hautocvars : (h.machine? role).map (·.autocvars) = some [e])
    (hsize : (h.machine? role).map (fun m => decide (e.offset + e.width ≤ m.registers.size)) =
      some true) : ∃ m, h.machine? role = some m ∧ m.Holds e text := by
  obtain ⟨v, hv, hholds⟩ := hfollows
  obtain ⟨m, hm, hm'⟩ := Option.map_eq_some_iff.mp hautocvars
  rw [hm] at hsize
  rw [Cvars.text?, hv] at htext
  cases htext
  refine ⟨m, hm, hholds role m e hm ?_ ⟨of_decide_eq_true (Option.some.inj hsize), ?_⟩⟩
  · rw [hm', List.find?_cons_of_pos (by exact beq_self_eq_true e.name)]
  · intro e' he' hne
    rw [hm'] at he'
    exact absurd (List.mem_singleton.mp he') hne

theorem globals_follow_tuned :
    tuned.Possible ∧ tuned.Changes .server "main" "x" ∧
      (tuned.execute .server "main").2.world.changed = [] ∧
      (∃ m, (tuned.execute .server "main").2.machine? .client = some m ∧
        m.registers.float 29 = Cvar.valueOf "5") ∧
      (tuned.setCvar "x" "7").1 = true ∧
      (∃ m, (tuned.setCvar "x" "7").2.machine? .server = some m ∧
        m.registers.float 29 = Cvar.valueOf "7") ∧
      tuned.world.cvars.Reachable ∧
      ∃ v ∈ tuned.world.cvars.vars, v.name = "x" ∧ v.value = Cvar.valueOf v.text := by
  obtain ⟨hexecute, hset, hcvars, hvalue⟩ := globals_follow
  obtain ⟨hchanged, hfollows⟩ := hexecute possible_tuned .server "main"
  have htrue : (tuned.setCvar "x" "7").1 = true := by decide +kernel
  have hreachable := hcvars possible_tuned
  refine ⟨possible_tuned, changes_tuned, hchanged, ?_, htrue, ?_, hreachable, ?_⟩
  · exact Host.Follows.holds_of_singleton (e := ⟨"x", 29, .float⟩) (hfollows "x" changes_tuned)
      (by decide +kernel) (by decide +kernel) (by decide +kernel)
  · exact Host.Follows.holds_of_singleton (e := ⟨"x", 29, .float⟩)
      (hset possible_tuned "x" "7" htrue) (by decide +kernel) (by decide +kernel)
      (by decide +kernel)
  · have hnames : tuned.world.cvars.vars.map (·.name) = ["x"] := by decide +kernel
    obtain ⟨v, hv, hname⟩ := List.mem_map.mp (hnames ▸ List.mem_singleton.mpr rfl :
      "x" ∈ tuned.world.cvars.vars.map (·.name))
    exact ⟨v, hv, hname, hvalue hreachable v hv⟩

end QuakeVm
