import QuakeVm.Proofs.Partition

/-!
# The active program

A host marks the program that is active. Who makes a role active holds a guard until the role that was
active before is so again.

The guards among the deeds of an operation are nested (`Nested`), so that it leaves the mark as it was
(`Nested.restores`). It is also seen where among them the machine of a role is run, updated or shut
down: while that role is active (`Scene.Proper`). Deeds are safe if both is the case (`Scene.Safe`), and
those of every operation are (`Scene.safe_deeds`).
-/

namespace QuakeVm

open QuakeVm.Action Activation

/-! ## Proper deeds -/

namespace Scene

/-- The program of a role is active as long as a function of it runs: at the beginning, at every
statement that is executed, and at the end. -/
def RunsActive (s : Scene) (role : Role) (name : String) : Prop :=
  s.active = some role ∧ ∀ m number, s.host.machine? role = some m →
    m.findFunction name = .ok number →
      (∀ p, Executes number ⟨m, s.host.world⟩ p → p.state.world.active = some role) ∧
        ((execute number).final ⟨m, s.host.world⟩).world.active = some role

/-- A deed that touches the machine of a role is proper while the role is active. -/
def Proper (s : Scene) : Deed → Prop
  | .run role name => s.RunsActive role name
  | .update role _ => s.active = some role
  | .shutDown role => s.active = some role
  | _ => True

/-- Deeds are proper, each of them in the scene that those before it lead to. -/
def AllProper : Scene → List Deed → Prop
  | _, [] => True
  | s, d :: rest => s.Proper d ∧ (s.carryOut d).AllProper rest

end Scene

/-- What a host does in an operation. -/
def Host.deeds (h : Host) : Operation → List Deed
  | .load role p => h.loadDeeds role p
  | .loadFile role path => (h.loadFileDeeds role path).2
  | .unload role => h.unloadDeeds role
  | .execute role name => h.runDeeds role name ++ (h.after (h.runDeeds role name)).syncDeeds
  | .setCvar name text => h.setCvarDeeds name text

/-! ## Guards that are nested -/

/-- Deeds that have nothing to do with guards. -/
def Deed.Plain : Deed → Prop
  | .enter _ | .force _ | .drop => False
  | _ => True

/-- Deeds in which whoever makes a role active lets go of the guard after all that came later. -/
inductive Nested : List Deed → Prop where
  | nil : Nested []
  | plain {d : Deed} (h : d.Plain) : Nested [d]
  | append {l l' : List Deed} (h : Nested l) (h' : Nested l') : Nested (l ++ l')
  | enter (role : Role) {l : List Deed} (h : Nested l) : Nested (.enter role :: l ++ [.drop])
  | force (role : Role) {l : List Deed} (h : Nested l) : Nested (.force role :: l ++ [.drop])

/-- What programs do does not change which of them is active. -/
theorem invariant_active (active : Option Role) :
    Invariant (fun _ => True) fun a => a.world.active = active where
  effect h ha := by
    cases h with
    | assignCvar name text =>
      unfold assignCvar World.setCvar
      dsimp only
      cases World.cvars _ |>.set name text with
      | error refusal => exact ha
      | ok r =>
        dsimp only
        split <;> exact ha
    | world w h => exact h.active_eq.trans ha
    | _ => exact ha
  calls _ _ _ _ _ _ ha := ha

namespace Scene

variable {s : Scene}

/-- While nothing is active, entering makes the role active and remembers that nothing was. -/
theorem carryOut_enter_of_none (hs : s.active = none) (role : Role) :
    (s.carryOut (.enter role)).active = some role ∧
      (s.carryOut (.enter role)).guards = .holds s.active :: s.guards := by
  unfold carryOut attempt
  dsimp only
  unfold Host.activate Host.switch
  rw [show s.host.world.active = none from hs]
  exact ⟨rfl, rfl⟩

/-- While a role is active, entering is refused. -/
theorem carryOut_enter_of_some {active : Role} (hs : s.active = some active) (role : Role) :
    (s.carryOut (.enter role)).active = s.active ∧
      (s.carryOut (.enter role)).guards = .refused :: s.guards := by
  unfold carryOut attempt
  dsimp only
  unfold Host.activate Host.switch
  rw [show s.host.world.active = some active from hs]
  exact ⟨rfl, rfl⟩

/-- The end of a guard that holds brings back the role that was active before. -/
theorem carryOut_drop_holds {previous : Option Role} {rest : List Guard}
    (hs : s.guards = .holds previous :: rest) :
    (s.carryOut .drop).active = previous ∧ (s.carryOut .drop).guards = rest := by
  obtain ⟨h, guards⟩ := s
  cases hs
  exact ⟨rfl, rfl⟩

/-- The end of a refused guard changes nothing. -/
theorem carryOut_drop_refused {rest : List Guard} (hs : s.guards = .refused :: rest) :
    (s.carryOut .drop).active = s.active ∧ (s.carryOut .drop).guards = rest := by
  obtain ⟨h, guards⟩ := s
  cases hs
  exact ⟨rfl, rfl⟩

/-- A run leaves the mark alone. -/
theorem active_run (h : Host) (role : Role) (m : Machine) (name : String) :
    (h.act role do execute (← Action.lift (m.findFunction name))).2.world.active =
      h.world.active := by
  cases hm : h.machine? role with
  | none => rw [Host.act_of_none hm]
  | some m' =>
    rw [Host.act_of_some hm, Host.world_setMachine, final_find]
    cases m.findFunction name with
    | error e => rfl
    | ok number => exact (invariant_active _).execute (writesOnly_true _ _) rfl

/-- Deeds other than guards leave the mark and the guards alone. -/
theorem carryOut_plain {d : Deed} (hd : d.Plain) (s : Scene) :
    (s.carryOut d).active = s.active ∧ (s.carryOut d).guards = s.guards := by
  cases d with
  | enter role => exact hd.elim
  | force role => exact hd.elim
  | drop => exact hd.elim
  | run role name =>
    cases hm : s.host.machine? role with
    | none =>
      rw [carryOut_run_of_none hm]
      exact ⟨rfl, rfl⟩
    | some m =>
      rw [carryOut_run hm]
      exact ⟨active_run _ _ _ _, rfl⟩
  | update role name => exact ⟨congrArg World.active (Host.world_setMachine _ _ _), rfl⟩
  | shutDown role =>
    cases hm : s.host.machine? role with
    | none =>
      rw [carryOut_shutDown_of_none hm]
      exact ⟨rfl, rfl⟩
    | some m =>
      obtain ⟨log, heq⟩ := Host.shutDown_eq s.host.world m
      rw [carryOut_shutDown hm]
      refine ⟨(congrArg World.active (Host.world_setMachine _ _ _)).trans ?_, rfl⟩
      show (Host.shutDown s.host.world m).active = _
      rw [heq]
      rfl
  | install role p =>
    obtain ⟨cvars, log, -, heq⟩ := declares_load role p s.host.world
    refine ⟨(congrArg World.active (Host.world_setMachine _ _ _)).trans ?_, rfl⟩
    show (Activation.load role p s.host.world).world.active = _
    rw [heq]
    rfl
  | assign name text =>
    refine ⟨?_, rfl⟩
    show (s.host.world.setCvar name text).2.active = _
    unfold World.setCvar
    split <;> rfl
  | clear => exact ⟨rfl, rfl⟩
  | note level text => exact ⟨rfl, rfl⟩

end Scene

/-- **Nested guards restore the mark**, and none of them is left. -/
theorem Nested.restores {l : List Deed} (h : Nested l) (s : Scene) :
    (s.carryOutAll l).active = s.active ∧ (s.carryOutAll l).guards = s.guards := by
  induction h generalizing s with
  | nil => exact ⟨rfl, rfl⟩
  | plain hd => exact Scene.carryOut_plain hd s
  | append _ _ ih ih' =>
    rw [Scene.carryOutAll_append]
    obtain ⟨hactive, hguards⟩ := ih s
    obtain ⟨hactive', hguards'⟩ := ih' (s.carryOutAll _)
    exact ⟨hactive'.trans hactive, hguards'.trans hguards⟩
  | @enter role l _ ih =>
    rw [List.cons_append, Scene.carryOutAll_cons, Scene.carryOutAll_append]
    obtain ⟨hactive, hguards⟩ := ih (s.carryOut (.enter role))
    cases hs : s.active with
    | none =>
      rw [(Scene.carryOut_enter_of_none hs role).2] at hguards
      rw [← hs]
      exact Scene.carryOut_drop_holds hguards
    | some active =>
      obtain ⟨hsame, hrefused⟩ := Scene.carryOut_enter_of_some hs role
      rw [hrefused] at hguards
      obtain ⟨hdrop, hrest⟩ := Scene.carryOut_drop_refused hguards
      rw [← hs]
      exact ⟨(hdrop.trans hactive).trans hsame, hrest⟩
  | @force role l _ ih =>
    rw [List.cons_append, Scene.carryOutAll_cons, Scene.carryOutAll_append]
    obtain ⟨-, hguards⟩ := ih (s.carryOut (.force role))
    exact Scene.carryOut_drop_holds hguards

/-! ## Safe deeds -/

namespace Scene

variable {s : Scene} {role : Role} {l l' : List Deed}

theorem allProper_append {l l' : List Deed} (h : s.AllProper l)
    (h' : (s.carryOutAll l).AllProper l') : s.AllProper (l ++ l') := by
  induction l generalizing s with
  | nil => exact h'
  | cons d rest ih => exact ⟨h.1, ih h.2 h'⟩

/-- A program that runs while its role is active does so to the end. -/
theorem runsActive (hs : s.active = some role) (name : String) : s.RunsActive role name := by
  refine ⟨hs, fun m number _ _ => ⟨fun p hp => ?_, ?_⟩⟩
  · exact (invariant_active _).runPoint (a := ⟨m, s.host.world⟩) hs hp.runPoint
  · exact (invariant_active _).execute (a := ⟨m, s.host.world⟩) (writesOnly_true _ _) hs

/-- Deeds are proper, and their guards are nested. -/
structure Safe (s : Scene) (l : List Deed) : Prop where
  proper : s.AllProper l
  nested : Nested l

theorem safe_nil (s : Scene) : s.Safe [] := ⟨trivial, .nil⟩

theorem safe_plain {d : Deed} (hd : d.Plain) (hs : s.Proper d) : s.Safe [d] := ⟨⟨hs, trivial⟩, .plain hd⟩

/-- Safe deeds may follow one another. -/
theorem Safe.append (hl : s.Safe l) (hl' : (s.carryOutAll l).Safe l') : s.Safe (l ++ l') :=
  ⟨allProper_append hl.proper hl'.proper, .append hl.nested hl'.nested⟩

/-- Safe deeds may stand under a guard that is forced. -/
theorem Safe.force (hl : (s.carryOut (.force role)).Safe l) :
    s.Safe (.force role :: l ++ [.drop]) where
  proper := allProper_append (l := .force role :: l) ⟨trivial, hl.proper⟩ ⟨trivial, trivial⟩
  nested := .force role hl.nested

/-- Safe deeds may stand under a guard that may be refused. -/
theorem Safe.enter (hl : (s.carryOut (.enter role)).Safe l) :
    s.Safe (.enter role :: l ++ [.drop]) where
  proper := allProper_append (l := .enter role :: l) ⟨trivial, hl.proper⟩ ⟨trivial, trivial⟩
  nested := .enter role hl.nested

/-- Updates are safe while the role is active. -/
theorem safe_updates (hs : s.active = some role) (names : List String) :
    s.Safe (names.map (.update role ·)) := by
  induction names generalizing s with
  | nil => exact safe_nil s
  | cons name rest ih =>
    have hupdate : s.Safe [.update role name] := safe_plain trivial hs
    refine hupdate.append (ih ?_)
    rw [← hs]
    exact (carryOut_plain (d := .update role name) trivial s).1

theorem safe_informDeeds (s : Scene) (h : Host) (names : List String) (role : Role) :
    s.Safe (h.informDeeds names role) := by
  unfold Host.informDeeds
  split
  · exact (safe_updates (s := s.carryOut (.force role)) rfl names).force
  · exact safe_nil s

theorem safe_informBothDeeds (s : Scene) (h : Host) (names : List String) :
    s.Safe (h.informBothDeeds names) :=
  (safe_informDeeds s h names .server).append (safe_informDeeds _ h names .client)

theorem safe_syncDeeds (s : Scene) (h : Host) : s.Safe h.syncDeeds := by
  have hclear : s.Safe [.clear] := safe_plain trivial trivial
  unfold Host.syncDeeds
  split
  · exact hclear
  · exact hclear.append (safe_informBothDeeds _ h _)

theorem safe_setCvarDeeds (s : Scene) (h : Host) (name text : String) :
    s.Safe (h.setCvarDeeds name text) := by
  have hassign : s.Safe [.assign name text] := safe_plain trivial trivial
  unfold Host.setCvarDeeds
  split
  · exact hassign.append (safe_informBothDeeds _ h _)
  · exact hassign

theorem safe_unloadDeeds (s : Scene) (h : Host) (role : Role) : s.Safe (h.unloadDeeds role) := by
  unfold Host.unloadDeeds
  split
  · have hdown : (s.carryOut (.force role)).Safe [.shutDown role] := safe_plain trivial rfl
    exact hdown.force
  · exact safe_nil s

theorem safe_loadDeeds (s : Scene) (h : Host) (role : Role) (p : Program) :
    s.Safe (h.loadDeeds role p) :=
  (safe_unloadDeeds s h role).append (safe_plain trivial trivial)

theorem safe_loadFileDeeds (s : Scene) (h : Host) (role : Role) (path : String) :
    s.Safe (h.loadFileDeeds role path).2 := by
  unfold Host.loadFileDeeds
  split
  · exact safe_plain trivial trivial
  · split
    · exact safe_nil s
    next p _ =>
      have hnote : s.Safe [.note .debug p.summary] := safe_plain trivial trivial
      exact hnote.append (safe_loadDeeds _ h role p)

/-- A function is run only where no program is active, and so under a guard. -/
theorem safe_runDeeds {h : Host} (hs : s.active = h.world.active) (role : Role) (name : String) :
    s.Safe (h.runDeeds role name) := by
  unfold Host.runDeeds
  split
  · split
    · exact (safe_nil (s.carryOut (.enter role))).enter
    next hnone =>
      have hnone : s.active = none := hs.trans (by simpa using hnone)
      have hrun : (s.carryOut (.enter role)).Safe [.run role name] :=
        safe_plain trivial (runsActive (carryOut_enter_of_none hnone role).1 name)
      exact hrun.enter
  · exact safe_nil s

/-- Whatever the operation, its deeds are safe. -/
theorem safe_deeds (h : Host) (op : Host.Operation) : Safe ⟨h, []⟩ (h.deeds op) := by
  cases op with
  | load role p => exact safe_loadDeeds _ h role p
  | loadFile role path => exact safe_loadFileDeeds _ h role path
  | unload role => exact safe_unloadDeeds _ h role
  | execute role name => exact (safe_runDeeds rfl role name).append (safe_syncDeeds _ _)
  | setCvar name text => exact safe_setCvarDeeds _ h name text

/-- Of safe deeds no guard is left. -/
theorem Safe.carryOutAll_eq {h : Host} (hl : Safe ⟨h, []⟩ l) :
    carryOutAll ⟨h, []⟩ l = ⟨h.after l, []⟩ :=
  congrArg (Scene.mk (h.after l)) (hl.nested.restores ⟨h, []⟩).2

/-- Deeds lead properly to a host, with guards that are nested. -/
structure Does (s : Scene) (l : List Deed) (h : Host) : Prop where
  carryOutAll_eq : s.carryOutAll l = ⟨h, s.guards⟩
  proper : s.AllProper l
  nested : Nested l

/-- **What a host does in an operation**, guard by guard. -/
theorem does_perform (h : Host) (op : Host.Operation) : Does ⟨h, []⟩ (h.deeds op) (h.perform op) := by
  have hsafe := safe_deeds h op
  refine ⟨hsafe.carryOutAll_eq.trans (congrArg (Scene.mk · []) ?_), hsafe.proper, hsafe.nested⟩
  cases op with
  | execute role name =>
    rw [Host.perform, Host.execute_snd, Host.deeds, Host.after, carryOutAll_append,
      (safe_runDeeds rfl role name).carryOutAll_eq]
    rfl
  | _ => rfl

end Scene

namespace Host

variable {h : Host} {role : Role} {name : String}

/-- Programs are told of changes without being run. -/
theorem run_notMem_informDeeds (h : Host) (names : List String) (visited : Role) :
    Deed.run role name ∉ h.informDeeds names visited := by
  unfold informDeeds
  split <;> simp

theorem run_notMem_unloadDeeds (h : Host) (unloaded : Role) :
    Deed.run role name ∉ h.unloadDeeds unloaded := by
  unfold unloadDeeds
  split <;> simp

theorem run_notMem_syncDeeds (h : Host) : Deed.run role name ∉ h.syncDeeds := by
  unfold syncDeeds informBothDeeds
  split <;> simp [run_notMem_informDeeds]

/-- A function is run by the operation that asks for it, if its program is there and none is
active. -/
theorem run_mem_deeds (h : Host) (op : Operation) :
    Deed.run role name ∈ h.deeds op ↔
      op = .execute role name ∧ (h.machine? role).isSome ∧ h.world.active = none := by
  cases op with
  | load other p => simp [deeds, loadDeeds, run_notMem_unloadDeeds]
  | loadFile other path =>
    unfold deeds
    dsimp only
    unfold loadFileDeeds loadDeeds
    split
    · simp
    · split <;> simp [run_notMem_unloadDeeds]
  | unload other => simp [deeds, run_notMem_unloadDeeds]
  | setCvar other text =>
    unfold deeds
    dsimp only
    unfold setCvarDeeds informBothDeeds
    split <;> simp [run_notMem_informDeeds]
  | execute other function =>
    have hrun : Deed.run role name ∈ h.runDeeds other function ↔
        (h.machine? other).isSome ∧ h.world.active = none ∧ role = other ∧ name = function := by
      unfold runDeeds
      cases h.machine? other <;> cases h.world.active <;> simp
    unfold deeds
    simp only [List.mem_append, run_notMem_syncDeeds, or_false, hrun, Operation.execute.injEq]
    constructor
    · rintro ⟨hm, hactive, rfl, rfl⟩
      exact ⟨⟨rfl, rfl⟩, hm, hactive⟩
    · rintro ⟨⟨rfl, rfl⟩, hm, hactive⟩
      exact ⟨hm, hactive, rfl, rfl⟩

/-- While a role is active the host executes no program. -/
theorem execute_of_active {active : Role} (hm : (h.machine? role).isSome)
    (hactive : h.world.active = some active) (name : String) :
    (h.execute role name).1 = .error (Cause.alreadyActive active role) := by
  obtain ⟨m, hm⟩ := Option.isSome_iff_exists.mp hm
  unfold execute executeActive runDeeds Scene.attemptAll Scene.attempt activate switch
  simp [hm, hactive]

end Host

/-- **The mark of the active program is restored.** Every operation of a host, in whichever way it
ends, leaves the mark as it was. It carries out deeds whose guards are nested, in which the machine of
a role is run, updated or shut down while the role is active, a run being one from its beginning to its
end. A function is run only if no program is active before; otherwise it is refused. -/
theorem active_restored :
    (∀ (h : Host) (op : Host.Operation),
      (h.perform op).world.active = h.world.active ∧
        Scene.Does ⟨h, []⟩ (h.deeds op) (h.perform op)) ∧
    (∀ (h : Host) (op : Host.Operation) (role : Role) (name : String),
      Deed.run role name ∈ h.deeds op ↔
        op = .execute role name ∧ (h.machine? role).isSome ∧ h.world.active = none) ∧
    (∀ (h : Host) (role : Role) (name : String) (active : Role), (h.machine? role).isSome →
      h.world.active = some active →
        (h.execute role name).1 = .error (Cause.alreadyActive active role)) ∧
    ∀ (s : Scene) (l : List Deed), Nested l →
      (s.carryOutAll l).active = s.active ∧ (s.carryOutAll l).guards = s.guards := by
  refine ⟨fun h op => ?_, fun h op role name => h.run_mem_deeds op, ?_, fun s l hl => hl.restores s⟩
  · have hdoes := Scene.does_perform h op
    have hactive := (hdoes.nested.restores ⟨h, []⟩).1
    rw [hdoes.carryOutAll_eq] at hactive
    exact ⟨hactive, hdoes⟩
  · intro h role name active hm hactive
    exact Host.execute_of_active hm hactive name

/-- A host with a server, while the client is marked as active. -/
def interrupted : Host := { serving with world := { serving.world with active := some .client } }

theorem active_restored_interrupted :
    (interrupted.machine? .server).isSome ∧ interrupted.world.active = some .client ∧
      (interrupted.execute .server "main").1 = .error (Cause.alreadyActive .client .server) ∧
      (interrupted.perform (.execute .server "main")).world.active = some .client ∧
      Nested [.force .server, .enter .client, .drop, .drop] ∧
      (Scene.carryOutAll ⟨interrupted, []⟩ [.force .server, .enter .client, .drop, .drop]).active =
        some .client := by
  have hm : (interrupted.machine? .server).isSome := by
    rw [interrupted, Host.machine?_withWorld, serving, Host.machine?_load]
    rfl
  have hactive : interrupted.world.active = some .client := rfl
  have hnested : Nested [.force .server, .enter .client, .drop, .drop] :=
    .force .server (.enter .client .nil)
  obtain ⟨hperform, -, hrefused, hrestores⟩ := active_restored
  refine ⟨hm, hactive, hrefused _ _ _ _ hm hactive, ?_, hnested, ?_⟩
  · exact (hperform _ _).1.trans hactive
  · exact (hrestores _ _ hnested).1.trans hactive

end QuakeVm
