import QuakeVm.Proofs.Linking

/-!
# Variables that programs change

Beside its text a variable has a number. Whatever is done to variables, the number is the one that the
text begins with (`Cvars.Reachable.value_eq`).

A program that changes a variable puts its name on a list. So a variable whose name is not on the list
has the text that it had before (`World.Tracks`), throughout a run and after it.
-/

namespace QuakeVm

open QuakeVm.Action Activation

/-! ## Texts and numbers -/

theorem Cvar.name_withText (text : String) (v : Cvar) : (v.withText text).name = v.name := rfl

namespace Cvars

variable {c c' : Cvars} {name other text : String} {changed : Bool} {v : Cvar}

/-- The variables that come about: at first there are none, and they are registered, set and
followed. -/
inductive Reachable : Cvars → Prop where
  | empty : Reachable ⟨[]⟩
  | register {c : Cvars} (hc : Reachable c) (name default : String) (flags : UInt32)
    (description : String) : Reachable (c.register name default flags description)
  | set {c c' : Cvars} {name text : String} {changed : Bool} (hc : Reachable c)
    (h : c.set name text = .ok (changed, c')) : Reachable c'
  | follow {c : Cvars} (hc : Reachable c) (name default : String) : Reachable (c.follow name default)

/-- The variables that every world begins with are reachable. -/
theorem reachable_base : base.Reachable :=
  ((Reachable.empty.register _ _ _ _).register _ _ _ _).register _ _ _ _

/-- The names of extensions are registered like other variables. -/
theorem Reachable.extensions (hc : c.Reachable) : (Extension.register c).Reachable := by
  unfold Extension.register
  generalize Extension.all = names
  induction names generalizing c with
  | nil => exact hc
  | cons name rest ih => exact ih (hc.register _ _ _ _)

/-- The text of a variable. -/
def text? (c : Cvars) (name : String) : Option String := (c.get? name).map (·.text)

/-- A variable that is set has the new text, unless it had it before. -/
theorem set_eq_ok (h : c.set name text = .ok (changed, c')) :
    (changed = false ∧ c' = c) ∨
      (changed = true ∧ (c.text? name).isSome ∧ c' = c.modify name (·.withText text)) := by
  unfold set at h
  cases hv : c.get? name with
  | none =>
    rw [hv] at h
    cases h
  | some v =>
    rw [hv] at h
    dsimp only at h
    split at h
    · cases h
    split at h
    · cases h
      exact .inl ⟨rfl, rfl⟩
    · cases h
      refine .inr ⟨rfl, ?_, rfl⟩
      unfold text?
      rw [hv]
      rfl

theorem mem_modify {f : Cvar → Cvar} (hv : v ∈ (c.modify name f).vars) :
    ∃ u ∈ c.vars, v = f u ∨ v = u := by
  obtain ⟨u, hu, rfl⟩ := List.mem_map.mp hv
  refine ⟨u, hu, ?_⟩
  split
  · exact .inl rfl
  · exact .inr rfl

theorem mem_register {default : String} {flags : UInt32} {description : String}
    (hv : v ∈ (c.register name default flags description).vars) :
    v ∈ c.vars ∨ v = .new name default flags description := by
  unfold register at hv
  split at hv
  · exact .inl hv
  · exact (List.mem_append.mp hv).imp_right List.mem_singleton.mp

/-- **The number of a variable is that of its text.** -/
theorem Reachable.value_eq (hc : c.Reachable) : ∀ v ∈ c.vars, v.value = Cvar.valueOf v.text := by
  induction hc with
  | empty => nofun
  | register _ name default flags description ih =>
    intro v hv
    rcases mem_register hv with hv | rfl
    · exact ih v hv
    · rfl
  | set _ h ih =>
    rcases set_eq_ok h with ⟨-, rfl⟩ | ⟨-, -, rfl⟩
    · exact ih
    · intro v hv
      obtain ⟨u, hu, rfl | rfl⟩ := mem_modify hv
      · rfl
      · exact ih _ hu
  | follow _ name default ih =>
    intro v hv
    -- What the variable is changed in are its flags.
    obtain ⟨u, hu, hv⟩ := mem_modify hv
    have hvalue : u.value = Cvar.valueOf u.text := by
      rcases mem_register hu with hu | rfl
      · exact ih u hu
      · rfl
    rcases hv with rfl | rfl <;> exact hvalue

/-- A modification concerns the variable of its name only. -/
theorem get?_modify (c : Cvars) (name other : String) {f : Cvar → Cvar}
    (hf : ∀ v, (f v).name = v.name) :
    (c.modify name f).get? other =
      (c.get? other).map fun v => if v.name == name then f v else v := by
  unfold get? modify
  rw [List.find?_map]
  have hname : (fun v : Cvar => (if v.name == name then f v else v).name == other) =
      fun v : Cvar => v.name == other := by
    funext v
    split
    · rw [hf]
    · rfl
  congr 2

theorem name_of_get? (h : c.get? name = some v) : v.name = name := by
  unfold get? at h
  exact beq_iff_eq.mp (List.find?_some (p := fun v : Cvar => v.name == name) h)

/-- A modification neither adds nor removes variables. -/
theorem isSome_text?_modify (c : Cvars) (name other : String) {f : Cvar → Cvar}
    (hf : ∀ v, (f v).name = v.name) :
    ((c.modify name f).text? other).isSome = (c.text? other).isSome := by
  unfold text?
  rw [get?_modify c name other hf, Option.isSome_map, Option.isSome_map, Option.isSome_map]

theorem text?_modify_ne (c : Cvars) (hne : other ≠ name) {f : Cvar → Cvar}
    (hf : ∀ v, (f v).name = v.name) : (c.modify name f).text? other = c.text? other := by
  unfold text?
  rw [get?_modify c name other hf]
  cases hv : c.get? other with
  | none => rfl
  | some v => simp [name_of_get? hv, hne]

end Cvars

namespace World

variable {w w' w'' : World} {name : String}

/-- To set a variable changes its text, or leaves a caution at most. -/
theorem setCvar_eq (w : World) (name text : String) :
    (∃ log, w.setCvar name text = (false, { w with log })) ∨ (w.cvars.text? name).isSome ∧
      w.setCvar name text = (true, { w with cvars := w.cvars.modify name (·.withText text) }) := by
  unfold setCvar
  cases hset : w.cvars.set name text with
  | error refusal => exact .inl ⟨_, rfl⟩
  | ok r =>
    obtain ⟨changed, c⟩ := r
    rcases Cvars.set_eq_ok hset with ⟨rfl, rfl⟩ | ⟨rfl, hsome, rfl⟩
    · exact .inl ⟨_, rfl⟩
    · exact .inr ⟨hsome, rfl⟩

/-- Setting a variable leads to reachable variables. -/
theorem reachable_setCvar (hw : w.cvars.Reachable) (name text : String) :
    (w.setCvar name text).2.cvars.Reachable := by
  unfold setCvar
  cases hset : w.cvars.set name text with
  | error refusal => exact hw
  | ok r => exact hw.set hset

/-! ## The list of changes -/

/-- From one world to another there are the same variables, and the names of all whose texts differ are
on the list. -/
structure Tracks (w w' : World) : Prop where
  changed_subset : w.changed ⊆ w'.changed
  isSome_eq : ∀ name, (w'.cvars.text? name).isSome = (w.cvars.text? name).isSome
  text?_eq : ∀ name, name ∉ w'.changed → w'.cvars.text? name = w.cvars.text? name

theorem Tracks.of_eq (hcvars : w'.cvars = w.cvars) (hchanged : w'.changed = w.changed) :
    w.Tracks w' where
  changed_subset := by rw [hchanged]; exact List.Subset.refl _
  isSome_eq _ := by rw [hcvars]
  text?_eq _ _ := by rw [hcvars]

theorem Tracks.trans (h : w.Tracks w') (h' : w'.Tracks w'') : w.Tracks w'' where
  changed_subset := List.Subset.trans h.changed_subset h'.changed_subset
  isSome_eq name := (h'.isSome_eq name).trans (h.isSome_eq name)
  text?_eq name hname :=
    (h'.text?_eq name hname).trans (h.text?_eq name fun hmem => hname (h'.changed_subset hmem))

/-- A variable whose text differs is among the changed ones. -/
theorem Tracks.mem_changed (h : w.Tracks w') (hne : w'.cvars.text? name ≠ w.cvars.text? name) :
    name ∈ w'.changed :=
  Decidable.byContradiction fun hname => hne (h.text?_eq name hname)

theorem Tracks.isSome_of_ne (h : w.Tracks w') (hne : w'.cvars.text? name ≠ w.cvars.text? name) :
    (w'.cvars.text? name).isSome := by
  have hsome := h.isSome_eq name
  cases htext : w'.cvars.text? name with
  | some text => rfl
  | none =>
    rw [htext] at hne hsome
    exact absurd (Option.isSome_eq_false_iff.mp hsome.symm) (by simpa using hne.symm)

end World

/-- A program that assigns a variable notes the change. -/
theorem tracks_assignCvar (a : Activation) (name text : String) :
    a.world.Tracks (a.assignCvar name text).world := by
  unfold assignCvar
  rcases a.world.setCvar_eq name text with ⟨log, hset⟩ | ⟨-, hset⟩
  · rw [hset]
    exact .of_eq rfl rfl
  · rw [hset]
    have hmem : ∀ other, other ∈ (if a.world.changed.contains name then a.world.changed
        else a.world.changed ++ [name]) ↔ other ∈ a.world.changed ∨ other = name := by
      intro other
      by_cases hname : name ∈ a.world.changed
      · simp only [List.contains_iff_mem.mpr hname, if_true, iff_self_or]
        rintro rfl
        exact hname
      · simp [hname]
    refine ⟨fun other hother => (hmem other).mpr (.inl hother),
      fun other => Cvars.isSome_text?_modify _ _ _ (Cvar.name_withText text),
      fun other hother => Cvars.text?_modify_ne _ ?_ (Cvar.name_withText text)⟩
    rintro rfl
    exact hother ((hmem other).mpr (.inr rfl))

/-- Programs put the variables that they change on the list, and take none off it. -/
theorem invariant_tracks (w : World) : Invariant (fun _ => True) fun a => w.Tracks a.world where
  effect h ha := by
    cases h with
    | assignCvar name text => exact ha.trans (tracks_assignCvar _ name text)
    | world w' h => exact ha.trans (.of_eq h.cvars_eq h.changed_eq)
    | _ => exact ha
  calls _ _ _ _ _ _ ha := ha

/-- A variable whose text was another one at some time of an execution is there at its end, and on the
list. -/
theorem Passes.mem_changed {number : Int} {a b : Activation} {name : String}
    (h : Passes number a b) (hne : b.world.cvars.text? name ≠ a.world.cvars.text? name) :
    name ∈ ((execute number).final a).world.changed ∧
      (((execute number).final a).world.cvars.text? name).isSome := by
  have hbefore : a.world.Tracks b.world := h.holds (invariant_tracks a.world) (.of_eq rfl rfl)
  have hafter := h.holds_final (invariant_tracks b.world) (.of_eq rfl rfl)
  refine ⟨hafter.changed_subset (hbefore.mem_changed hne), ?_⟩
  rw [hafter.isSome_eq]
  exact hbefore.isSome_of_ne hne

end QuakeVm
