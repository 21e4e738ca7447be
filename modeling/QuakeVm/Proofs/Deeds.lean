import QuakeVm.Host
import QuakeVm.Proofs.Linking

/-!
# What hosts do

Every operation of a host is a sequence of deeds, so what each deed keeps is kept by the operations.
`Host.Arises` are the hosts that come about when operations alternate with what happens to a host from
outside. What may happen from outside is a parameter, because an invariant about the tables and one
about the variables bear different things. `Host.Arises.induction` leaves out the operations: in their
place it asks for single deeds.
-/

namespace QuakeVm

open QuakeVm.Action Activation

/-! ## Parts of a host -/

namespace Host

variable {h : Host} {role : Role} {m : Machine}

theorem machine?_setMachine (h : Host) (role other : Role) (m : Option Machine) :
    (h.setMachine role m).machine? other = if other = role then m else h.machine? other := by
  cases role <;> cases other <;> rfl

theorem machine?_setMachine_self (h : Host) (role : Role) (m? : Option Machine) :
    (h.setMachine role m?).machine? role = m? := by
  rw [machine?_setMachine, if_pos rfl]

theorem machine?_withWorld (h : Host) (w : World) (role : Role) :
    { h with world := w }.machine? role = h.machine? role := by
  cases role <;> rfl

theorem world_setMachine (h : Host) (role : Role) (m : Option Machine) :
    (h.setMachine role m).world = h.world := by
  cases role <;> rfl

/-- To put a machine where it already is changes nothing. -/
theorem setMachine_self {m? : Option Machine} (hm : h.machine? role = m?) :
    h.setMachine role m? = h := by
  subst hm
  cases role <;> rfl

theorem setMachine_setMachine (h : Host) (role : Role) (m? m'? : Option Machine) :
    (h.setMachine role m?).setMachine role m'? = h.setMachine role m'? := by
  cases role <;> rfl

theorem mapWorld_setMachine (h : Host) (role : Role) (m? : Option Machine) (f : World → World) :
    (h.setMachine role m?).mapWorld f = (h.mapWorld f).setMachine role m? := by
  cases role <;> rfl

/-- Without a machine there is nothing that could act. -/
theorem act_of_none {α : Type} (hm : h.machine? role = none) (x : Action α) :
    (h.act role x).2 = h := by
  unfold Host.act
  rw [hm]

/-- An action changes the world and the machine of its role, in whichever way it ends. -/
theorem act_of_some {α : Type} (hm : h.machine? role = some m) (x : Action α) :
    (h.act role x).2 = { h with world := (x.final ⟨m, h.world⟩).world }.setMachine role
      (some (x.final ⟨m, h.world⟩).machine) := by
  unfold Host.act final
  rw [hm]
  dsimp only
  cases x ⟨m, h.world⟩ <;> rfl

end Host

/-! ## Deeds -/

namespace Scene

variable {s : Scene} {role : Role} {m : Machine}

@[simp] theorem carryOutAll_cons (s : Scene) (d : Deed) (l : List Deed) :
    s.carryOutAll (d :: l) = (s.carryOut d).carryOutAll l := rfl

@[simp] theorem carryOutAll_append (s : Scene) (l l' : List Deed) :
    s.carryOutAll (l ++ l') = (s.carryOutAll l).carryOutAll l' := List.foldl_append

/-- Who looks at the answers does the same. -/
theorem attemptAll_snd (s : Scene) (l : List Deed) : (s.attemptAll l).2 = s.carryOutAll l := by
  induction l generalizing s with
  | nil => rfl
  | cons d rest ih =>
    rw [carryOutAll_cons, attemptAll, carryOut]
    rcases s.attempt d with ⟨_ | _, s'⟩
    · rfl
    · exact ih s'

/-- Entering changes the world only, whether it is refused or not. -/
theorem carryOut_enter (s : Scene) (role : Role) :
    (s.carryOut (.enter role)).host = { s.host with
      world := (Host.activate s.host.world role).2 } := by
  unfold carryOut attempt
  dsimp only
  rcases Host.activate s.host.world role with ⟨_ | _, w⟩ <;> rfl

theorem carryOut_run (hm : s.host.machine? role = some m) (name : String) :
    s.carryOut (.run role name) = s.mapHost fun h =>
      (h.act role do execute (← Action.lift (m.findFunction name))).2 := by
  unfold carryOut attempt
  dsimp only
  rw [hm]
  rfl

theorem carryOut_run_of_none (hm : s.host.machine? role = none) (name : String) :
    s.carryOut (.run role name) = s := by
  unfold carryOut attempt
  dsimp only
  rw [hm]

/-- Shutting a machine down takes it away from the host. -/
theorem carryOut_shutDown (hm : s.host.machine? role = some m) :
    s.carryOut (.shutDown role) = s.mapHost fun h =>
      (h.mapWorld (Host.shutDown · m)).setMachine role none := by
  unfold carryOut attempt
  dsimp only
  rw [hm]

theorem carryOut_shutDown_of_none (hm : s.host.machine? role = none) :
    s.carryOut (.shutDown role) = s := by
  unfold carryOut attempt
  dsimp only
  rw [hm]

/-- Looking for a function changes nothing, and a function that is not found is not run. -/
theorem final_find (m : Machine) (name : String) (a : Activation) :
    (do execute (← Action.lift (m.findFunction name))).final a =
      match m.findFunction name with
      | .ok number => (execute number).final a
      | .error _ => a := by
  cases m.findFunction name <;> rfl

end Scene

/-! ## Operations -/

/-- What a host can be asked to do. -/
inductive Host.Operation where
  | load (role : Role) (p : Program)
  | loadFile (role : Role) (path : String)
  | unload (role : Role)
  | execute (role : Role) (name : String)
  | setCvar (name text : String)

namespace Host

variable {h : Host} {role : Role} {m : Machine}

/-- The host after an operation, whatever the answer is. -/
def perform (h : Host) : Operation → Host
  | .load role p => h.load role p
  | .loadFile role path => (h.loadFile role path).2
  | .unload role => (h.unload role).2
  | .execute role name => (h.execute role name).2
  | .setCvar name text => (h.setCvar name text).2

/-- A function is run, and then both programs are told what it changed. -/
theorem execute_snd (h : Host) (role : Role) (name : String) :
    (h.execute role name).2 = (h.after (h.runDeeds role name)).informChanged := by
  unfold execute executeActive after
  cases hm : h.machine? role with
  | none =>
    unfold runDeeds
    rw [hm]
    rfl
  | some m => exact congrArg (fun s => s.host.informChanged) (Scene.attemptAll_snd _ _)

/-- Where no program is loaded there is none to unload. -/
theorem unload_of_none (hm : h.machine? role = none) : h.unload role = (false, h) := by
  unfold unload unloadDeeds
  rw [hm]
  rfl

/-- A program is shut down while it is active, and then the active one is what it was before. -/
theorem unload_of_some (hm : h.machine? role = some m) :
    h.unload role = (true, { h with
      world := restore (shutDown (force h.world role) m) h.world.active }.setMachine role none) := by
  have hm' : (Scene.carryOut ⟨h, []⟩ (.force role)).host.machine? role = some m := by
    rw [← hm]
    exact machine?_withWorld _ _ _
  unfold unload unloadDeeds after
  rw [hm, if_pos Option.isSome_some, Scene.carryOutAll_cons, Scene.carryOutAll_cons,
    Scene.carryOut_shutDown hm']
  refine Prod.ext rfl ?_
  show (((h.mapWorld (force · role)).mapWorld (shutDown · m)).setMachine role none).mapWorld
    (restore · h.world.active) = _
  rw [mapWorld_setMachine]
  simp only [mapWorld]

/-- A program is loaded where the one before it has been unloaded. -/
theorem load_eq (h : Host) (role : Role) (p : Program) :
    h.load role p = { (h.unload role).2 with
      world := (Activation.load role p (h.unload role).2.world).world }.setMachine role
        (some (Activation.load role p (h.unload role).2.world).machine) := by
  unfold load loadDeeds after
  rw [Scene.carryOutAll_append]
  rfl

theorem world_load (h : Host) (role : Role) (p : Program) :
    (h.load role p).world = (Activation.load role p (h.unload role).2.world).world := by
  rw [load_eq, world_setMachine]

theorem machine?_load (h : Host) (role : Role) (p : Program) :
    (h.load role p).machine? role =
      some (Activation.load role p (h.unload role).2.world).machine := by
  rw [load_eq, machine?_setMachine_self]

/-! ## Hosts that come about -/

/-- The hosts that come about: a host performs operations, a machine runs a function or makes other
changes on its own, it has something set in it from outside, and the world changes from outside. -/
inductive Arises (setting : Machine → Machine → Prop) (change : World → World → Prop) :
    Host → Prop where
  | new (directory : String) (disk : Disk) : Arises setting change (.new directory disk)
  | perform {h : Host} (hh : Arises setting change h) (op : Operation) :
    Arises setting change (h.perform op)
  | run {h : Host} (hh : Arises setting change h) (role : Role) (number : Int) :
    Arises setting change (h.act role (QuakeVm.execute number)).2
  | confined {h : Host} (hh : Arises setting change h) (role : Role) {α : Type} {x : Action α}
    (hx : Confined x) : Arises setting change (h.act role x).2
  | adjust {h : Host} (hh : Arises setting change h) (role : Role) {f : Machine → Machine}
    (hf : ∀ m, setting m (f m)) : Arises setting change (h.act role (modifyMachine f)).2
  | surroundings {h : Host} (hh : Arises setting change h) {w : World} (hw : change h.world w) :
    Arises setting change { h with world := w }

section Induction

variable {setting : Machine → Machine → Prop} {change : World → World → Prop} {inv : Host → Prop}

/-- What each deed keeps is kept by deeds. -/
theorem invariant_after (hdeed : ∀ s d, inv s.host → inv (Scene.carryOut s d).host) (hh : inv h)
    (l : List Deed) : inv (h.after l) := by
  have hall : ∀ s : Scene, inv s.host → inv (s.carryOutAll l).host := by
    induction l with
    | nil => exact fun s hs => hs
    | cons d rest ih => exact fun s hs => ih _ (hdeed s d hs)
  exact hall ⟨h, []⟩ hh

/-- What every deed keeps is kept by every operation. -/
theorem invariant_perform (hdeed : ∀ s d, inv s.host → inv (Scene.carryOut s d).host) (hh : inv h)
    (op : Operation) : inv (h.perform op) := by
  cases op with
  | load role p => exact invariant_after hdeed hh _
  | loadFile role path => exact invariant_after hdeed hh _
  | unload role => exact invariant_after hdeed hh _
  | setCvar name text => exact invariant_after hdeed hh _
  | execute role name =>
    rw [perform, execute_snd]
    exact invariant_after hdeed (invariant_after hdeed hh _) _

/-- **An invariant of the hosts that come about** is one that each deed keeps, and all that happens to
a host from outside. -/
theorem Arises.induction (hh : h.Arises setting change)
    (hnew : ∀ directory disk, inv (.new directory disk))
    (hdeed : ∀ s d, inv s.host → inv (Scene.carryOut s d).host)
    (hrun : ∀ {h : Host}, inv h → ∀ role number, inv (h.act role (QuakeVm.execute number)).2)
    (hconfined : ∀ {h : Host}, inv h → ∀ (role : Role) {α : Type} {x : Action α}, Confined x →
      inv (h.act role x).2)
    (hadjust : ∀ {h : Host}, inv h → ∀ (role : Role) {f : Machine → Machine},
      (∀ m, setting m (f m)) → inv (h.act role (modifyMachine f)).2)
    (hsurroundings : ∀ {h : Host}, inv h → ∀ {w : World}, change h.world w →
      inv { h with world := w }) : inv h := by
  induction hh with
  | new directory disk => exact hnew directory disk
  | perform _ op ih => exact invariant_perform hdeed ih op
  | run _ role number ih => exact hrun ih role number
  | confined _ role hx ih => exact hconfined ih role hx
  | adjust _ role hf ih => exact hadjust ih role hf
  | surroundings _ hw ih => exact hsurroundings ih hw

end Induction

end Host

end QuakeVm
