import QuakeVm.Proofs.Assembly

/-!
# The windows of assembled functions

A function takes the globals that are allocated between its beginning and its end as its window. One
function is open at a time, so windows lie one behind the other and no global is in two of them
(`LaidOut`). What a function is does not change any more once it has been ended, however the session
goes on (`Defines.exists_origin`).
-/

namespace QuakeVm

theorem ValueType.size_bounds (t : ValueType) : 1 ≤ t.size ∧ t.size ≤ 3 := by
  cases t <;> simp [size]

/-- A global is in the window of a function. -/
def Function.Owns (f : Function) (x : Nat) : Prop :=
  f.windowStart ≤ x ∧ x < f.windowStart + f.windowSize

theorem Function.not_owns_of_locals {f : Function} (h : f.locals = 0) (x : Nat) : ¬ f.Owns x := by
  unfold Owns windowSize
  rw [h]
  rintro ⟨hle, hlt⟩
  exact Nat.not_le.mpr hlt hle

namespace Assembler

/-! ## How functions change -/

/-- A function that ends when there are `m` globals. -/
def closed (m : Nat) (f : Function) : Function :=
  { f with locals := Int32.ofNat m - f.parmStart }

/-- What a request does to the functions: nothing, it adds one, it begins one, or it ends the one that
is open. -/
inductive Redefines (r : Request) (b b' : Assembler) : Prop where
  | keep (hfunctions : b'.functions = b.functions) (hcurrent : b'.current = b.current)
  | add (f : Function) (hlocals : f.locals = 0) (hfunctions : b'.functions = b.functions.push f)
    (hcurrent : b'.current = b.current) (hglobals : b.globals.size < b'.globals.size)
  | open (f : Function) (hclosed : b.current = none) (hlocals : f.locals = 0)
    (hstart : f.parmStart = Int32.ofNat (b.globals.size + 1))
    (hfunctions : b'.functions = b.functions.push f) (hcurrent : b'.current = some b.functions.size)
    (hglobals : b.globals.size < b'.globals.size)
  | close (k : Nat) (hr : r = .finish) (hopen : b.current = some k)
    (hfunctions : b'.functions = b.functions.modify k (closed b.globals.size))
    (hcurrent : b'.current = none)

theorem redefines {r : Request} {b b' : Assembler} (h : b.perform r = .ok b') :
    Redefines r b b' := by
  by_cases hr : r.changesFunctions = false
  · obtain ⟨hfunctions, hcurrent⟩ := (performs h).functions_eq hr
    exact .keep hfunctions hcurrent
  cases r with
  | builtin name number =>
    cases h
    obtain ⟨hwords, hcurrent, s, hfunctions⟩ := b.builtin_eq name number
    exact .add _ rfl hfunctions hcurrent (by rw [hwords.size_globals]; exact Nat.lt_succ_self _)
  | begin name types =>
    obtain ⟨f, offsets, hb⟩ := begin_of_perform h
    obtain ⟨hclosed, -, -, -, hwords, hcurrent, s, file, hfunctions⟩ := begin_eq_ok hb
    refine .open _ hclosed rfl rfl hfunctions hcurrent ?_
    rw [hwords.size_globals, beginWords, List.length_cons]
    omega
  | finish =>
    obtain ⟨-, hcurrent, k, hopen, hfunctions⟩ := finish_eq_ok h
    exact .close k rfl hopen hfunctions hcurrent
  | _ => exact absurd rfl hr

theorem getElem?_push_of_some {functions : Array Function} {k : Nat} {g : Function} (f : Function)
    (hg : functions[k]? = some g) : (functions.push f)[k]? = some g := by
  obtain ⟨hlt, -⟩ := Array.getElem?_eq_some_iff.mp hg
  rw [Array.getElem?_push, if_neg (Nat.ne_of_lt hlt), hg]

/-! ## Windows -/

/-- Windows lie below `n` and apart from each other. If a function is open, its window begins at `n`. -/
structure LaidOut (b : Assembler) (n : Nat) : Prop where
  le_size : n ≤ b.globals.size
  size_functions : b.functions.size ≤ b.globals.size
  lt_of_owns : ∀ {i : Nat} {f : Function} {x : Nat}, b.functions[i]? = some f → f.Owns x → x < n
  disjoint : ∀ {i j : Nat} {f g : Function} {x : Nat}, b.functions[i]? = some f →
    b.functions[j]? = some g → i ≠ j → f.Owns x → ¬ g.Owns x
  current : ∀ {k : Nat}, b.current = some k →
    ∃ f, b.functions[k]? = some f ∧ f.locals = 0 ∧ f.parmStart = Int32.ofNat n

/-- The window of a function that has been ended: what was allocated since it began. -/
theorem window_closed {f : Function} {m n : Nat} (hf : f.parmStart = Int32.ofNat n) (hn : n ≤ m)
    (hm : m ≤ 0x10000) : (closed m f).windowStart = n ∧ (closed m f).windowSize = m - n := by
  have hstart : (Int32.ofNat n).toInt = n := Int32.toInt_ofNat_of_lt (by omega)
  have hend : (Int32.ofNat m).toInt = m := Int32.toInt_ofNat_of_lt (by omega)
  have hsize : (Int32.ofNat m - Int32.ofNat n).toInt = (m : Int) - n := by
    rw [Int32.toInt_sub, hstart, hend]
    exact Int.bmod_eq_of_le (by omega) (by omega)
  unfold closed Function.windowStart Function.windowSize
  dsimp only
  rw [hf, hstart, hsize]
  omega

theorem owns_closed_iff {f : Function} {m n x : Nat} (hf : f.parmStart = Int32.ofNat n) (hn : n ≤ m)
    (hm : m ≤ 0x10000) : (closed m f).Owns x ↔ n ≤ x ∧ x < m := by
  obtain ⟨hstart, hsize⟩ := window_closed hf hn hm
  unfold Function.Owns
  rw [hstart, hsize]
  omega

namespace LaidOut

variable {b b' : Assembler} {n : Nat} {r : Request}

theorem push {f : Function} (h : LaidOut b n) (hf : f.locals = 0) {m : Nat} (hnm : n ≤ m)
    (hm : m ≤ b'.globals.size) (hglobals : b.globals.size < b'.globals.size)
    (hfunctions : b'.functions = b.functions.push f)
    (hcurrent : ∀ {k}, b'.current = some k →
      ∃ f, b'.functions[k]? = some f ∧ f.locals = 0 ∧ f.parmStart = Int32.ofNat m) :
    LaidOut b' m := by
  -- The new function owns nothing yet, and the others are those of `b`.
  have hold {i : Nat} {g : Function} {x : Nat} (hg : b'.functions[i]? = some g) (hx : g.Owns x) :
      b.functions[i]? = some g := by
    rw [hfunctions, Array.getElem?_push] at hg
    split at hg
    · cases hg
      exact absurd hx (Function.not_owns_of_locals hf x)
    · exact hg
  refine ⟨hm, ?_, ?_, ?_, hcurrent⟩
  · rw [hfunctions, Array.size_push]
    have hsize := h.size_functions
    omega
  · intro i g x hg hx
    have hlt := h.lt_of_owns (hold hg hx) hx
    omega
  · intro i j g g' x hg hg' hij hx hx'
    exact h.disjoint (hold hg hx) (hold hg' hx') hij hx hx'

/-- When the open function ends, its window begins where the others end. -/
theorem close {k : Nat} (h : LaidOut b n) (hopen : b.current = some k)
    (hfunctions : b'.functions = b.functions.modify k (closed b.globals.size))
    (hcurrent : b'.current = none) (hglobals : b.globals.size ≤ b'.globals.size)
    (hsize : b.globals.size ≤ 0x10000) : LaidOut b' b.globals.size := by
  obtain ⟨f, hf, -, hstart⟩ := h.current hopen
  have hle := h.le_size
  have hcases {i : Nat} {g : Function} {x : Nat} (hg : b'.functions[i]? = some g) (hx : g.Owns x) :
      i = k ∧ n ≤ x ∧ x < b.globals.size ∨ i ≠ k ∧ b.functions[i]? = some g ∧ x < n := by
    rw [hfunctions, Array.getElem?_modify] at hg
    split at hg
    next hik =>
      subst hik
      rw [hf] at hg
      cases hg
      exact .inl ⟨rfl, (owns_closed_iff hstart hle hsize).mp hx⟩
    next hik => exact .inr ⟨Ne.symm hik, hg, h.lt_of_owns hg hx⟩
  refine ⟨hglobals, ?_, ?_, ?_, ?_⟩
  · rw [hfunctions, Array.size_modify]
    exact Nat.le_trans h.size_functions hglobals
  · intro i g x hg hx
    rcases hcases hg hx with ⟨-, -, hlt⟩ | ⟨-, -, hlt⟩
    · exact hlt
    · omega
  · intro i j g g' x hg hg' hij hx hx'
    rcases hcases hg hx with ⟨hi, hn, -⟩ | ⟨hi, hg, hlt⟩ <;>
      rcases hcases hg' hx' with ⟨hj, hn', -⟩ | ⟨hj, hg', hlt'⟩
    · exact hij (hi.trans hj.symm)
    · omega
    · omega
    · exact h.disjoint hg hg' hij hx hx'
  · intro i hi
    rw [hcurrent] at hi
    cases hi

/-- **A request leaves windows apart from each other.** -/
theorem perform (h : LaidOut b n) (hr : b.perform r = .ok b') (hsize : b'.globals.size ≤ 0x10000) :
    ∃ n', LaidOut b' n' := by
  have hgrows := (performs hr).extends.size_globals_le
  have hle := h.le_size
  cases redefines hr with
  | keep hfunctions hcurrent =>
    refine ⟨n, Nat.le_trans hle hgrows, ?_, ?_, ?_, ?_⟩
    · exact hfunctions ▸ Nat.le_trans h.size_functions hgrows
    · exact hfunctions ▸ h.lt_of_owns
    · exact hfunctions ▸ h.disjoint
    · exact hfunctions ▸ hcurrent ▸ h.current
  | add f hlocals hfunctions hcurrent hglobals =>
    refine ⟨n, h.push hlocals (Nat.le_refl n) (Nat.le_trans hle hgrows) hglobals hfunctions ?_⟩
    intro k hk
    obtain ⟨g, hg, hg'⟩ := h.current (hcurrent ▸ hk)
    exact ⟨g, hfunctions ▸ getElem?_push_of_some f hg, hg'⟩
  | «open» f hclosed hlocals hstart hfunctions hcurrent hglobals =>
    refine ⟨b.globals.size + 1, h.push hlocals (by omega) hglobals hglobals hfunctions ?_⟩
    intro k hk
    rw [hcurrent] at hk
    cases hk
    exact ⟨f, by rw [hfunctions, Array.getElem?_push_size], hlocals, hstart⟩
  | close k _ hopen hfunctions hcurrent =>
    exact ⟨_, h.close hopen hfunctions hcurrent hgrows (Nat.le_trans hgrows hsize)⟩

end LaidOut

/-- **Whatever is assembled, windows are apart from each other.** -/
theorem exists_laidOut {rs : List Request} {b : Assembler} (h : new.performAll rs = .ok b)
    (hsize : b.globals.size ≤ 0x10000) : ∃ n, LaidOut b n := by
  have hrun {c : Assembler} {n : Nat} {rs : List Request} (hc : LaidOut c n)
      (h : c.performAll rs = .ok b) : ∃ n, LaidOut b n := by
    induction rs generalizing c n with
    | nil => cases h; exact ⟨n, hc⟩
    | cons r rs ih =>
      obtain ⟨d, hd, h⟩ := performAll_cons_eq_ok.mp h
      obtain ⟨n', hn'⟩ := hc.perform hd (Nat.le_trans (extends_of_performAll h).size_globals_le hsize)
      exact ih hn' h
  -- At the beginning there is only the null function.
  have hnull {i : Nat} {f : Function} {x : Nat} (hf : new.functions[i]? = some f) : ¬ f.Owns x := by
    obtain ⟨-, rfl⟩ := Array.getElem?_eq_some_iff.mp hf
    refine Function.not_owns_of_locals ?_ x
    simp [new_eq.2.2.2.1]
  exact hrun (n := 0) ⟨Nat.zero_le _, by decide, fun hf hx => absurd hx (hnull hf),
    fun hf _ _ hx => absurd hx (hnull hf), fun hk => by cases hk⟩ h

/-! ## Functions of a session -/

/-- A function as a session sees it: the types of its parameters, what beginning it gave, and the
requests until its end. -/
structure Subroutine where
  types : List ValueType
  number : Int32
  offsets : List UInt16
  begun : Assembler
  body : List Request

/-- A session defines a function. -/
def Defines (rs : List Request) (d : Subroutine) : Prop :=
  ∃ before name after start,
    rs = before ++ .begin name d.types :: (d.body ++ .finish :: after) ∧ .finish ∉ d.body ∧
    new.performAll before = .ok start ∧ start.begin name d.types = .ok (d.number, d.offsets, d.begun)

section Kept

variable {b b' : Assembler} {rs : List Request} {k : Nat} {f : Function}

/-- Until it is ended, the open function stays as it began. -/
theorem kept_while_open (h : b.performAll rs = .ok b') (hrs : .finish ∉ rs)
    (hopen : b.current = some k) (hf : b.functions[k]? = some f) :
    b'.current = some k ∧ b'.functions[k]? = some f := by
  induction rs generalizing b with
  | nil => cases h; exact ⟨hopen, hf⟩
  | cons r rs ih =>
    obtain ⟨c, hc, h⟩ := performAll_cons_eq_ok.mp h
    obtain ⟨hr, hrs⟩ := not_or.mp (List.mem_cons.not.mp hrs)
    refine ih h hrs ?_ ?_ <;> cases redefines hc with
    | keep hfunctions hcurrent => simp only [hfunctions, hcurrent, hopen, hf]
    | add g _ hfunctions hcurrent =>
      simp only [hfunctions, hcurrent, hopen, getElem?_push_of_some g hf]
    | «open» g hclosed => rw [hclosed] at hopen; cases hopen
    | close _ hfinish => exact absurd hfinish.symm hr

/-- A function that is not open stays as it is. -/
theorem kept_when_closed (h : b.performAll rs = .ok b') (hclosed : b.current ≠ some k)
    (hf : b.functions[k]? = some f) : b'.functions[k]? = some f := by
  induction rs generalizing b with
  | nil => cases h; exact hf
  | cons r rs ih =>
    obtain ⟨c, hc, h⟩ := performAll_cons_eq_ok.mp h
    obtain ⟨hlt, -⟩ := Array.getElem?_eq_some_iff.mp hf
    cases redefines hc with
    | keep hfunctions hcurrent => exact ih h (hcurrent ▸ hclosed) (hfunctions ▸ hf)
    | add g _ hfunctions hcurrent =>
      exact ih h (hcurrent ▸ hclosed) (hfunctions ▸ getElem?_push_of_some g hf)
    | «open» g _ _ _ hfunctions hcurrent =>
      refine ih h ?_ (hfunctions ▸ getElem?_push_of_some g hf)
      rw [hcurrent]
      exact fun heq => Nat.ne_of_gt hlt (Option.some.inj heq)
    | close i _ hopen hfunctions hcurrent =>
      have hik : i ≠ k := fun heq => hclosed (heq ▸ hopen)
      refine ih h (by simp [hcurrent]) ?_
      rw [hfunctions, Array.getElem?_modify, if_neg hik, hf]

/-- There are never fewer functions than before. -/
theorem size_functions_le (h : b.performAll rs = .ok b') : b.functions.size ≤ b'.functions.size := by
  induction rs generalizing b with
  | nil => cases h; exact Nat.le_refl _
  | cons r rs ih =>
    obtain ⟨c, hc, h⟩ := performAll_cons_eq_ok.mp h
    refine Nat.le_trans ?_ (ih h)
    cases redefines hc with
    | keep hfunctions => simp [hfunctions]
    | add f _ hfunctions => simp [hfunctions]
    | «open» f _ _ _ hfunctions => simp [hfunctions]
    | close k _ _ hfunctions => simp [hfunctions]

end Kept

/-- Where a function comes from: it was begun in the state `start` and ended in the state `ended`. -/
structure Origin (b : Assembler) (d : Subroutine) (start ended : Assembler) (f : Function) : Prop where
  extends_start : Extends new start
  functions_pos : 0 < start.functions.size
  allocates : Allocates (start.beginWords d.types) start d.begun
  performAll_body : d.begun.performAll d.body = .ok ended
  extends_ended : Extends ended b
  length_types : d.types.length ≤ 8
  number_eq : d.number = Int32.ofNat start.functions.size
  offsets_eq : d.offsets = (parameterPlaces (start.globals.size + 1) d.types).map Nat.toUInt16
  function_eq : b.functions[start.functions.size]? = some (closed ended.globals.size f)
  firstStatement_eq : f.firstStatement = Int32.ofNat start.statements.size
  parmStart_eq : f.parmStart = Int32.ofNat (start.globals.size + 1)
  parameters_eq : f.parameters = Int32.ofNat d.types.length
  parameterSizes_eq : f.parameterSizes =
    .ofFn fun i => ((d.types[i.val]?.map ValueType.size).getD 0).toUInt8

/-- **A function that a session defines is in the program as it was defined.** -/
theorem Defines.exists_origin {rs : List Request} {b : Assembler} {d : Subroutine}
    (hd : Defines rs d) (h : new.performAll rs = .ok b) :
    ∃ start ended f, Origin b d start ended f := by
  obtain ⟨before, name, after, start, rfl, hfinish, hstart, hbegin⟩ := hd
  obtain ⟨begun, hbegun, h⟩ := exists_perform_of_performAll h hstart
  obtain rfl : begun = d.begun := by
    obtain ⟨f, offsets, hbegin'⟩ := begin_of_perform hbegun
    rw [hbegin] at hbegin'
    cases hbegin'
    rfl
  obtain ⟨ended, hbody, h⟩ := performAll_append_eq_ok.mp h
  obtain ⟨finished, hend, h⟩ := performAll_cons_eq_ok.mp h
  obtain ⟨-, hlength, hnumber, hoffsets, hwords, hcurrent, s, file, hfunctions⟩ :=
    begin_eq_ok hbegin
  obtain ⟨hopen, hf⟩ := kept_while_open hbody hfinish hcurrent
    (by rw [hfunctions, Array.getElem?_push_size])
  obtain ⟨-, hclosed, k, hk, hmodified⟩ := finish_eq_ok hend
  obtain rfl : k = start.functions.size := Option.some.inj (hk.symm.trans hopen)
  have hfinished := kept_when_closed h (by simp [hclosed])
    (by rw [hmodified, Array.getElem?_modify, if_pos rfl, hf]; rfl)
  exact ⟨start, ended, _, extends_of_performAll hstart, size_functions_le hstart, hwords, hbody,
    (performs hend).extends.trans (extends_of_performAll h), hlength, hnumber, hoffsets, hfinished,
    rfl, rfl, rfl, rfl⟩

/-! ## What a function owns -/

theorem length_parameterPlaces (n : Nat) (types : List ValueType) :
    (parameterPlaces n types).length = types.length := by
  induction types generalizing n with
  | nil => rfl
  | cons t types ih => rw [parameterPlaces, List.length_cons, List.length_cons, ih]

/-- The places of parameters lie within the words that are allocated for them. -/
theorem parameterPlaces_bounds {n k place : Nat} {types : List ValueType} {t : ValueType}
    (hplace : (parameterPlaces n types)[k]? = some place) (ht : types[k]? = some t) :
    n ≤ place ∧
      place + t.size ≤ n + (types.flatMap fun t => List.replicate t.size (0 : Int32)).length := by
  induction types generalizing n k with
  | nil => cases ht
  | cons t' types ih =>
    rw [List.flatMap_cons, List.length_append, List.length_replicate]
    cases k with
    | zero =>
      cases hplace
      cases ht
      omega
    | succ k =>
      obtain ⟨hle, hend⟩ := ih hplace ht
      omega

namespace Origin

variable {b : Assembler} {d : Subroutine} {start ended : Assembler} {f : Function}

theorem size_begun (h : Origin b d start ended f) : d.begun.globals.size = start.globals.size + 1 +
    (d.types.flatMap fun t => List.replicate t.size (0 : Int32)).length := by
  rw [h.allocates.size_globals, beginWords, List.length_cons]
  omega

theorem size_le (h : Origin b d start ended f) : 32 ≤ start.globals.size ∧
    start.globals.size + 1 ≤ d.begun.globals.size ∧ d.begun.globals.size ≤ ended.globals.size ∧
    ended.globals.size ≤ b.globals.size := by
  have hstart := h.extends_start.size_globals_le
  rw [new_eq.2.2.2.2.2] at hstart
  have hbegun := h.size_begun
  have hbody := (extends_of_performAll h.performAll_body).size_globals_le
  have hended := h.extends_ended.size_globals_le
  omega

theorem window_eq (h : Origin b d start ended f) (hsize : b.globals.size ≤ 0x10000) :
    (closed ended.globals.size f).windowStart = start.globals.size + 1 ∧
      (closed ended.globals.size f).windowSize = ended.globals.size - (start.globals.size + 1) := by
  have hle := h.size_le
  exact window_closed h.parmStart_eq (by omega) (by omega)

theorem owns_iff (h : Origin b d start ended f) (hsize : b.globals.size ≤ 0x10000) {x : Nat} :
    (closed ended.globals.size f).Owns x ↔ start.globals.size < x ∧ x < ended.globals.size := by
  have hle := h.size_le
  exact owns_closed_iff h.parmStart_eq (by omega) (by omega)

/-- The number of a function is its place among the functions of the program. -/
theorem toInt_number (h : Origin b d start ended f) {rs : List Request}
    (hb : new.performAll rs = .ok b) (hsize : b.globals.size ≤ 0x10000) :
    d.number.toInt = start.functions.size := by
  obtain ⟨n, hlaid⟩ := exists_laidOut hb hsize
  have hcount := hlaid.size_functions
  obtain ⟨hlt, -⟩ := Array.getElem?_eq_some_iff.mp h.function_eq
  rw [h.number_eq]
  exact Int32.toInt_ofNat_of_lt (by omega)

theorem place_of_offset (h : Origin b d start ended f) (hsize : b.globals.size ≤ 0x10000) {k : Nat}
    {offset : UInt16} {type : ValueType} (hoffset : d.offsets[k]? = some offset)
    (htype : d.types[k]? = some type) :
    (parameterPlaces (start.globals.size + 1) d.types)[k]? = some offset.toNat ∧
      start.globals.size < offset.toNat ∧ offset.toNat + type.size ≤ d.begun.globals.size := by
  rw [h.offsets_eq, List.getElem?_map, Option.map_eq_some_iff] at hoffset
  obtain ⟨place, hplace, rfl⟩ := hoffset
  obtain ⟨hle, hend⟩ := parameterPlaces_bounds hplace htype
  have hbegun := h.size_begun
  have hsizes := h.size_le
  have hpos := type.size_bounds.1
  have hexact : place.toUInt16.toNat = place := Nat.mod_eq_of_lt (by omega)
  rw [hexact]
  exact ⟨hplace, by omega, by omega⟩

end Origin

/-- The window of a function begins behind the system globals, has its parameters and the storage that
its body asks for, and shares nothing with the window of another function. -/
structure WindowOf (p : Program) (d : Subroutine) (f : Function) : Prop where
  behind_system : timeRegister < f.windowStart
  length_offsets : d.offsets.length = d.types.length
  owns_parameter : ∀ (k : Nat) (offset : UInt16) (type : ValueType) (j : Nat),
    d.offsets[k]? = some offset → d.types[k]? = some type → j < type.size →
    f.Owns (offset.toNat + j)
  owns_local : ∀ (before : List Request) (type : ValueType) (after : List Request) (c : Assembler)
    (j : Nat), d.body = before ++ .localStorage type :: after → d.begun.performAll before = .ok c →
    j < type.size → f.Owns ((c.localStorage type).1.toNat + j)
  disjoint : ∀ (i : Nat) (g : Function) (x : Nat), p.functions[i]? = some g →
    (i : Int) ≠ d.number.toInt → f.Owns x → ¬ g.Owns x

/-- **A function owns what it was given**, and nobody else does. -/
theorem Origin.windowOf {b : Assembler} {d : Subroutine} {start ended : Assembler} {f : Function}
    {rs : List Request} {p : Program} (h : Origin b d start ended f)
    (hb : new.performAll rs = .ok b) (hsize : b.globals.size ≤ 0x10000) (hp : b.build = .ok p) :
    WindowOf p d (closed ended.globals.size f) where
  behind_system := by
    rw [(h.window_eq hsize).1]
    exact Nat.lt_succ_of_lt h.size_le.1
  length_offsets := by rw [h.offsets_eq, List.length_map, length_parameterPlaces]
  owns_parameter k offset type j hoffset htype hj := by
    obtain ⟨-, hlt, hend⟩ := h.place_of_offset hsize hoffset htype
    have hsizes := h.size_le
    exact (h.owns_iff hsize).mpr ⟨by omega, by omega⟩
  owns_local before type after c j hbody hc hj := by
    have hrest := h.performAll_body
    rw [hbody] at hrest
    obtain ⟨e, he, hrest⟩ := exists_perform_of_performAll hrest hc
    cases he
    have hbefore := (extends_of_performAll hc).size_globals_le
    have hafter := (extends_of_performAll hrest).size_globals_le
    have hadded : (c.localStorage type).2.globals.size = c.globals.size + type.size := by
      rw [← List.length_replicate (n := type.size) (a := (0 : Int32))]
      exact (c.adds_global "" type _).size_globals
    have hsizes := h.size_le
    have hexact : (c.localStorage type).1.toNat = c.globals.size := Nat.mod_eq_of_lt (by omega)
    rw [hexact]
    exact (h.owns_iff hsize).mpr ⟨by omega, by omega⟩
  disjoint i g x hg hi hx := by
    obtain ⟨n, hlaid⟩ := exists_laidOut hb hsize
    rw [(build_eq_ok hp).2.1] at hg
    rw [h.toInt_number hb hsize] at hi
    exact hlaid.disjoint h.function_eq hg (by omega) hx

end Assembler

end QuakeVm
