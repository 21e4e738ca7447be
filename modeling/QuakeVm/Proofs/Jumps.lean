import QuakeVm.Proofs.Assembly
import QuakeVm.Proofs.LoadedProgram

/-!
# Where assembled jumps go

The assembler stores the distance of a jump in sixteen bits, and the interpreter reads them as a signed
number. The two agree about every distance that sixteen bits can hold: such a jump goes on at the
statement that its label marks, forwards and backwards. A distance that they cannot hold is cut without
notice, and the jump goes elsewhere.

* `MarkedAt` is the place of a label: the number of statements when it was last marked.
* `Leads` says where a statement leads when it jumps; by `leads_of_jump` that is the `landing` of the
  jump, and by `landing_eq_iff` it is the target if the distance is within reach.
-/

namespace QuakeVm

open QuakeVm.Action Activation

namespace Assembler

/-! ## Distances -/

/-- What the interpreter makes of the distance that the assembler stores. -/
theorem toInt_distance (source target : Nat) :
    Instruction.distance (distance source target) =
      Int.bmod ((target : Int) - source) 0x10000 := by
  have hnonneg : 0 ≤ ((target : Int) - source) % 0x10000 := Int.emod_nonneg _ (by decide)
  have hbits (n : Nat) : (n.toUInt16).toInt16.toInt = Int.bmod n 0x10000 := BitVec.toInt_ofNat n
  unfold Instruction.distance distance
  rw [hbits, Int.toNat_of_nonneg hnonneg]
  exact Int.emod_bmod _ 0x10000

/-! ## Labels -/

/-- The label that a request jumps to. -/
def Request.target? : Request → Option Label
  | .goto l | .branch _ _ l => some l
  | _ => none

/-- The label that a request jumps to and the registers with which the jump is taken, for opcodes that
jump. -/
def Request.jump? : Request → Option (Label × (Registers → Bool))
  | .goto l => some (l, fun _ => true)
  | .branch .if_ condition l => some (l, fun r => r.get condition.toNat != 0)
  | .branch .ifNot condition l => some (l, fun r => r.get condition.toNat == 0)
  | _ => none

/-- A label is marked. Labels are told apart by their numbers. -/
def Marks (rs : List Request) (l : Label) : Prop := ∃ l', .mark l' ∈ rs ∧ l'.id = l.id

/-- `target` is the number of statements when a label was last marked. -/
def MarkedAt (rs : List Request) (l : Label) (target : Nat) : Prop :=
  ∃ before l' after c, rs = before ++ .mark l' :: after ∧ l'.id = l.id ∧ ¬ Marks after l ∧
    new.performAll before = .ok c ∧ target = c.statements.size

section Labels

variable {b b' : Assembler} {rs : List Request} {l : Label}

theorem marks_of_performAll (h : b.performAll rs = .ok b') :
    ∃ marks, b'.marks = marks ++ b.marks ∧ ∀ m ∈ marks, ∃ l, .mark l ∈ rs ∧ l.id = m.1 := by
  induction rs generalizing b with
  | nil => cases h; exact ⟨[], rfl, fun _ h => by cases h⟩
  | cons r rs ih =>
    obtain ⟨c, hc, h⟩ := performAll_cons_eq_ok.mp h
    obtain ⟨marks, hmarks, hmem⟩ := ih h
    refine ⟨marks ++ r.marks b.statements.size, ?_, fun m hm => ?_⟩
    · rw [hmarks, (performs hc).marks_eq, List.append_assoc]
    rcases List.mem_append.mp hm with hm | hm
    · obtain ⟨l, hl, hid⟩ := hmem m hm
      exact ⟨l, List.mem_cons_of_mem _ hl, hid⟩
    · cases r with
      | mark l =>
        cases List.mem_singleton.mp hm
        exact ⟨l, List.mem_cons_self, rfl⟩
      | _ => cases hm

theorem lookup_eq_none_of_not_marks {marks : List (Nat × Nat)}
    (hmarks : ∀ m ∈ marks, ∃ l, .mark l ∈ rs ∧ l.id = m.1) (hl : ¬ Marks rs l) :
    marks.lookup l.id = none := by
  refine List.lookup_eq_none_iff.mpr fun m hm => bne_iff_ne.mpr fun heq => ?_
  obtain ⟨l', hl', hid⟩ := hmarks m hm
  exact hl ⟨l', hl', hid.trans heq.symm⟩

/-- The mark made last is the one that counts. -/
theorem lookup_of_markedAt {target : Nat} (h : new.performAll rs = .ok b)
    (htarget : MarkedAt rs l target) : b.marks.lookup l.id = some target := by
  obtain ⟨before, l', after, c, rfl, hid, hafter, hc, rfl⟩ := htarget
  obtain ⟨d, hd, h⟩ := exists_perform_of_performAll h hc
  obtain ⟨marks, hmarks, hmem⟩ := marks_of_performAll h
  rw [hmarks, (performs hd).marks_eq, List.lookup_append, lookup_eq_none_of_not_marks hmem hafter,
    Option.none_or]
  show List.lookup l.id ((l'.id, c.statements.size) :: c.marks) = _
  rw [hid, List.lookup_cons_self]

theorem exists_last_mark (h : Marks rs l) :
    ∃ before l' after, rs = before ++ .mark l' :: after ∧ l'.id = l.id ∧ ¬ Marks after l := by
  induction rs with
  | nil =>
    obtain ⟨l', hl', -⟩ := h
    cases hl'
  | cons r rs ih =>
    by_cases hrs : Marks rs l
    · obtain ⟨before, l', after, rfl, hlast⟩ := ih hrs
      exact ⟨r :: before, l', after, rfl, hlast⟩
    · obtain ⟨l', hl', hid⟩ := h
      rcases List.mem_cons.mp hl' with rfl | hl'
      · exact ⟨[], l', rs, rfl, hid, hrs⟩
      · exact absurd ⟨l', hl', hid⟩ hrs

/-- A label has a place if it is marked at all. -/
theorem exists_markedAt (h : new.performAll rs = .ok b) (hl : Marks rs l) :
    ∃ target, MarkedAt rs l target := by
  obtain ⟨before, l', after, rfl, hid, hafter⟩ := exists_last_mark hl
  obtain ⟨c, hc, -⟩ := performAll_append_eq_ok.mp h
  exact ⟨_, before, l', after, c, rfl, hid, hafter, hc, rfl⟩

theorem lookup_eq_none_iff (h : new.performAll rs = .ok b) :
    b.marks.lookup l.id = none ↔ ¬ Marks rs l := by
  constructor
  · intro hnone hl
    obtain ⟨target, htarget⟩ := exists_markedAt h hl
    rw [lookup_of_markedAt h htarget] at hnone
    cases hnone
  · intro hl
    obtain ⟨marks, hmarks, hmem⟩ := marks_of_performAll h
    rw [hmarks, new_eq.2.2.1, List.append_nil]
    exact lookup_eq_none_of_not_marks hmem hl

/-- The jumps that wait are those to the labels of the requests. -/
theorem labels_of_performAll (h : b.performAll rs = .ok b') :
    b'.jumps.toList.map (·.label) = b.jumps.toList.map (·.label) ++ rs.filterMap Request.target? := by
  induction rs generalizing b with
  | nil => cases h; exact (List.append_nil _).symm
  | cons r rs ih =>
    obtain ⟨c, hc, h⟩ := performAll_cons_eq_ok.mp h
    have hlabels (n : Nat) : (r.jumps n).map (·.label) = r.target?.toList := by
      cases r <;> rfl
    rw [ih h, (performs hc).jumps_eq, List.map_append, hlabels, List.append_assoc,
      List.filterMap_cons]
    cases r.target? <;> rfl

end Labels

/-! ## Jumps of a program -/

/-- Where a jump leads: to its target, or to a statement that differs from it by a multiple of
`0x10000` and is closer. -/
def landing (source target : Nat) : Int := source + Int.bmod ((target : Int) - source) 0x10000

/-- A jump leads to its target if sixteen bits hold the distance, and only then. -/
theorem landing_eq_iff (source target : Nat) :
    landing source target = target ↔
      -0x8000 ≤ (target : Int) - source ∧ (target : Int) - source < 0x8000 := by
  unfold landing
  rw [Int.bmod_def]
  omega

/-- In every state that a program comes to, the statement `source` goes on at `s` if the jump is
taken. -/
def Leads (p : Program) (source : Nat) (taken : Registers → Bool) (s : Int) : Prop :=
  ∀ role w a exitDepth, Later (load role p w) a → taken a.machine.registers = true →
    ∃ c, step exitDepth source a = .ok (some s) c

/-- The instruction that a jump becomes when its distance is filled in. -/
theorem Request.instruction_of_jump? {r : Request} {l : Label} {taken : Registers → Bool}
    (hr : r.jump? = some (l, taken)) :
    ∃ op st operand, st.op = op.number ∧ r.statements = [st] ∧
      (∀ n, r.jumps n = [⟨n, operand, l⟩]) ∧ ∀ d, (setDistance d operand st).op = op.number ∧
        Instruction.ofStatement op (setDistance d operand st) =
          .jump taken (Instruction.distance d) := by
  unfold jump? at hr
  split at hr
  · cases hr
    exact ⟨.goto, _, .a, rfl, rfl, fun _ => rfl, fun _ => ⟨rfl, rfl⟩⟩
  · cases hr
    exact ⟨.if_, _, .b, rfl, rfl, fun _ => rfl, fun _ => ⟨rfl, rfl⟩⟩
  · cases hr
    exact ⟨.ifNot, _, .b, rfl, rfl, fun _ => rfl, fun _ => ⟨rfl, rfl⟩⟩
  · cases hr

theorem Request.target?_of_jump? {r : Request} {l : Label} {taken : Registers → Bool}
    (hr : r.jump? = some (l, taken)) : r.target? = some l := by
  unfold jump? at hr
  split at hr <;> cases hr <;> rfl

/-- **A jump leads to the place of its label**, as far as sixteen bits reach. -/
theorem leads_of_jump {before after : List Request} {r : Request} {b c : Assembler} {p : Program}
    {l : Label} {taken : Registers → Bool} {target : Nat}
    (h : new.performAll (before ++ r :: after) = .ok b) (hp : b.build = .ok p)
    (hr : r.jump? = some (l, taken)) (hc : new.performAll before = .ok c)
    (htarget : MarkedAt (before ++ r :: after) l target) :
    Leads p c.statements.size taken (landing c.statements.size target) := by
  have hlookup := lookup_of_markedAt h htarget
  obtain ⟨d, hd, h⟩ := exists_perform_of_performAll h hc
  obtain ⟨op, st, operand, hop, hstatements, hjumps, hinstruction⟩ :=
    Request.instruction_of_jump? hr
  obtain ⟨target', htarget', hst⟩ := getElem?_build_of_jump (extends_of_performAll hc)
    (performs hd) (extends_of_performAll h) hp (hjumps _)
  obtain rfl : target' = target := Option.some.inj (htarget'.symm.trans hlookup)
  obtain ⟨hop', hjump⟩ := hinstruction (distance c.statements.size target')
  rw [hstatements] at hst
  rw [toInt_distance] at hjump
  intro role w a exitDepth ha htaken
  exact ha.carries.step_of_jump hst hop' hjump htaken exitDepth

/-- A program cannot be built if some jump names a label that was never marked, and only then. -/
theorem build_error_iff {rs : List Request} {b : Assembler} (h : new.performAll rs = .ok b) :
    (∃ text source, b.build = .error (.unmarkedLabel text source)) ↔
      ∃ r ∈ rs, ∃ l, r.target? = some l ∧ ¬ Marks rs l := by
  have hlabels := labels_of_performAll h
  rw [new_eq.2.1] at hlabels
  have hmem (l : Label) : (∃ j ∈ b.jumps.toList, j.label = l) ↔ ∃ r ∈ rs, r.target? = some l := by
    rw [← List.mem_map, hlabels]
    exact List.mem_filterMap
  constructor
  · rintro ⟨text, source, herror⟩
    rcases b.build_cases with ⟨-, -, -, j, hj, hnone⟩ | ⟨p, hok, -⟩
    · obtain ⟨r, hr, htarget⟩ := (hmem j.label).mp ⟨j, hj, rfl⟩
      exact ⟨r, hr, j.label, htarget, (lookup_eq_none_iff h).mp hnone⟩
    · rw [hok] at herror
      cases herror
  · rintro ⟨r, hr, l, htarget, hl⟩
    rcases b.build_cases with ⟨text, source, herror, -⟩ | ⟨p, -, hmarked⟩
    · exact ⟨text, source, herror⟩
    · obtain ⟨j, hj, rfl⟩ := (hmem l).mpr ⟨r, hr, htarget⟩
      exact absurd ((lookup_eq_none_iff h).mpr hl) (hmarked j hj)

/-- **Assembled jumps lead to their labels, as far as sixteen bits reach.** Building a program fails
exactly if some jump names a label that was never marked. Otherwise each label of a jump has a place,
and when the program runs, a jump that is taken goes on at that place if the distance is within reach,
and elsewhere if it is not. -/
theorem jumps_reach_labels {rs : List Request} {b : Assembler} (h : new.performAll rs = .ok b) :
    ((∃ text source, b.build = .error (.unmarkedLabel text source)) ↔
      ∃ r ∈ rs, ∃ l, r.target? = some l ∧ ¬ Marks rs l) ∧
    (∀ e, b.build = .error e → ∃ text source, e = .unmarkedLabel text source) ∧
    ∀ p, b.build = .ok p → ∀ before r after l taken c, rs = before ++ r :: after →
      r.jump? = some (l, taken) → new.performAll before = .ok c →
      (∃ target, MarkedAt rs l target) ∧ ∀ target, MarkedAt rs l target →
        Leads p c.statements.size taken (landing c.statements.size target) ∧
        (landing c.statements.size target = target ↔
          -0x8000 ≤ (target : Int) - c.statements.size ∧
          (target : Int) - c.statements.size < 0x8000) := by
  refine ⟨build_error_iff h, fun e he => ?_, ?_⟩
  · rcases b.build_cases with ⟨text, source, herror, -⟩ | ⟨p, hok, -⟩
    · exact ⟨text, source, Except.error.inj (he.symm.trans herror)⟩
    · rw [hok] at he
      cases he
  · rintro p hp before r after l taken c rfl hr hc
    constructor
    · -- A jump to a label that was never marked would have stopped the building.
      by_contra hnone
      have hunmarked : ¬ Marks (before ++ r :: after) l := fun hl => hnone (exists_markedAt h hl)
      obtain ⟨text, source, herror⟩ := (build_error_iff h).mpr
        ⟨r, List.mem_append_right _ List.mem_cons_self, l, r.target?_of_jump? hr, hunmarked⟩
      rw [hp] at herror
      cases herror
    · intro target htarget
      exact ⟨leads_of_jump h hp hr hc htarget, landing_eq_iff _ _⟩

/-- A loop that begins with a jump to its condition, which is marked twice. -/
def looping : List Request :=
  [.mark ⟨0, "test"⟩, .goto ⟨0, "test"⟩, .mark ⟨1, "top"⟩, .op .storeF 28 29 0, .mark ⟨0, "test"⟩,
    .branch .ifNot 28 ⟨2, "end"⟩, .goto ⟨1, "top"⟩, .mark ⟨2, "end"⟩, .op .done 0 0 0]

theorem jumps_reach_labels_looping : ∃ b p, new.performAll looping = .ok b ∧ b.build = .ok p ∧
    (∃ c, step 0 1 (load .server p (.new "game" .empty)) = .ok (some 3) c) ∧
    (∃ c, step 0 4 (load .server p (.new "game" .empty)) = .ok (some 2) c) ∧
    ∀ a, Later (load .server p (.new "game" .empty)) a → a.machine.registers.get 28 = 0 →
      ∃ c, step 0 3 a = .ok (some 5) c := by
  have htest : MarkedAt looping ⟨0, "test"⟩ 3 :=
    ⟨looping.take 4, _, looping.drop 5, _, rfl, rfl, by simp [Marks, looping], rfl, rfl⟩
  have htop : MarkedAt looping ⟨1, "top"⟩ 2 :=
    ⟨looping.take 2, _, looping.drop 3, _, rfl, rfl, by simp [Marks, looping], rfl, rfl⟩
  have hend : MarkedAt looping ⟨2, "end"⟩ 5 :=
    ⟨looping.take 7, _, looping.drop 8, _, rfl, rfl, by simp [Marks, looping], rfl, rfl⟩
  have hperform : new.performAll looping = .ok _ := rfl
  obtain ⟨-, -, hjumps⟩ := jumps_reach_labels hperform
  refine ⟨_, _, rfl, rfl, ?_, ?_, fun a ha hzero => ?_⟩
  · have hgoto := hjumps _ rfl (looping.take 1) _ (looping.drop 2) _ _ _ rfl rfl rfl
    exact (hgoto.2 3 htest).1 .server _ _ 0 .refl rfl
  · have hgoto := hjumps _ rfl (looping.take 6) _ (looping.drop 7) _ _ _ rfl rfl rfl
    exact (hgoto.2 2 htop).1 .server _ _ 0 .refl rfl
  · have hbranch := hjumps _ rfl (looping.take 5) _ (looping.drop 6) _ _ _ rfl rfl rfl
    exact (hbranch.2 5 hend).1 .server _ _ 0 ha (by simpa using hzero)

/-! ## A jump too far -/

theorem performAll_replicate_op (b : Assembler) (n : Nat) (code : Opcode) (x y z : UInt16) :
    ∃ c, b.performAll (List.replicate n (.op code x y z)) = .ok c ∧
      c.statements.size = b.statements.size + n := by
  induction n generalizing b with
  | zero => exact ⟨b, rfl, rfl⟩
  | succ n ih =>
    obtain ⟨c, hc, hsize⟩ := ih (b.op code x y z)
    refine ⟨c, performAll_cons_eq_ok.mpr ⟨_, rfl, hc⟩, ?_⟩
    rw [hsize, op, Array.size_push]
    omega

/-- A jump over some statements. -/
def jumpOver (n : Nat) : List Request :=
  .goto ⟨0, "far"⟩ :: (List.replicate n (.op .done 0 0 0) ++ [.mark ⟨0, "far"⟩])

theorem leads_jumpOver (n : Nat) : ∃ b p, new.performAll (jumpOver n) = .ok b ∧
    b.build = .ok p ∧ MarkedAt (jumpOver n) ⟨0, "far"⟩ (n + 2) ∧
    Leads p 1 (fun _ => true) (landing 1 (n + 2)) := by
  obtain ⟨c, hc, hsize⟩ := performAll_replicate_op (new.goto ⟨0, "far"⟩) n .done 0 0 0
  have hbefore : new.performAll (.goto ⟨0, "far"⟩ :: List.replicate n (.op .done 0 0 0)) = .ok c :=
    performAll_cons_eq_ok.mpr ⟨_, rfl, hc⟩
  have hall : new.performAll (jumpOver n) = .ok (c.mark ⟨0, "far"⟩) :=
    performAll_append_eq_ok.mpr ⟨c, hbefore, rfl⟩
  have hplace : n + 2 = c.statements.size := by
    rw [hsize]
    exact Nat.add_comm n 2
  have htarget : MarkedAt (jumpOver n) ⟨0, "far"⟩ (n + 2) :=
    ⟨.goto ⟨0, "far"⟩ :: List.replicate n (.op .done 0 0 0), ⟨0, "far"⟩, [], c, rfl, rfl,
      by simp [Marks], hbefore, hplace⟩
  rcases (c.mark ⟨0, "far"⟩).build_cases with ⟨text, source, herror, -⟩ | ⟨p, hp, -⟩
  · obtain ⟨r, hr, l, hl, hunmarked⟩ := (build_error_iff hall).mp ⟨text, source, herror⟩
    rcases List.mem_cons.mp hr with rfl | hr
    · cases hl
      exact absurd ⟨_, by simp [jumpOver], rfl⟩ hunmarked
    · rcases List.mem_append.mp hr with hr | hr
      · cases List.eq_of_mem_replicate hr
        cases hl
      · cases List.mem_singleton.mp hr
        cases hl
  · have hfirst : new.performAll ([] ++ jumpOver n) = .ok (c.mark ⟨0, "far"⟩) := hall
    exact ⟨_, p, hall, hp, htarget, leads_of_jump hfirst hp rfl rfl htarget⟩

/-- The program is built, but the jump does not go to its label: it leaves the program. -/
theorem far_jump_astray : ∃ b p, new.performAll (jumpOver 0x7fff) = .ok b ∧ b.build = .ok p ∧
    MarkedAt (jumpOver 0x7fff) ⟨0, "far"⟩ 0x8001 ∧
    ∃ c, step 0 1 (load .server p (.new "game" .empty)) = .ok (some (-0x7fff)) c := by
  obtain ⟨b, p, hb, hp, htarget, hleads⟩ := leads_jumpOver 0x7fff
  have hlanding : landing 1 (0x7fff + 2) = -0x7fff := by decide
  rw [hlanding] at hleads
  exact ⟨b, p, hb, hp, htarget, hleads .server _ _ 0 .refl rfl⟩

end Assembler

end QuakeVm
