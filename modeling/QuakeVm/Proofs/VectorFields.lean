import QuakeVm.Proofs.Calls
import QuakeVm.Proofs.Fields
import QuakeVm.Proofs.Indifference

/-!
# Vectors in fields

A vector takes three words, and the statements that load and store one look for the first of them
only. Where the other two are not fields of the same entity, the words of the next entity take their
place, and behind the last entity there are none. So a vector keeps to its entity exactly where
three fields are left. Elsewhere a store changes the next entity or stops halfway.

What `storeWords` and `loadWords` do is said word by word: `Stored` and `get_loadWords`.
-/

namespace QuakeVm

namespace Entities

variable {e e' e'' : Entities}

/-! ## Storing words -/

/-- The second entities are the first after storing `n` values: the values are there as far as there
is room for them, and everything else is what it was. -/
structure Stored (values : Nat → Int32) (p n : Nat) (e e' : Entities) : Prop where
  fields_eq : e'.fields = e.fields
  free_eq : e'.free = e.free
  size_eq : e'.words.size = e.words.size
  inside {i : Nat} (hi : i < n) (h : p + i < e.words.size) : e'.words[p + i]? = some (values i)
  outside {q : Nat} (h : q < p ∨ p + n ≤ q) : e'.words[q]? = e.words[q]?

/-- Nothing is stored where there is no room for the first value. -/
theorem Stored.of_size_le {values : Nat → Int32} {p n : Nat} (h : e.words.size ≤ p) :
    Stored values p n e e :=
  ⟨rfl, rfl, rfl, fun _ hlt => by omega, fun _ => rfl⟩

theorem Stored.cons {values : Nat → Int32} {p n : Nat} (hwrite : e.write p (values 0) = .ok e')
    (h : Stored (fun i => values (i + 1)) (p + 1) n e' e'') : Stored values p (n + 1) e e'' := by
  obtain ⟨hlt, rfl⟩ := write_eq_ok hwrite
  have hroom : (e.words.setIfInBounds p (values 0)).size = e.words.size :=
    Array.size_setIfInBounds
  refine ⟨h.fields_eq, h.free_eq, h.size_eq.trans hroom, fun {i} hi hi' => ?_, fun {q} hq => ?_⟩
  · cases i with
    | zero =>
      rw [Nat.add_zero, h.outside (Or.inl (Nat.lt_succ_self p))]
      exact Array.getElem?_setIfInBounds_self_of_lt hlt
    | succ i =>
      rw [Nat.add_comm i 1, ← Nat.add_assoc] at hi' ⊢
      rw [h.inside (by omega) (hroom.symm ▸ hi'), Nat.add_comm 1 i]
  · rw [h.outside (by omega)]
    exact Array.getElem?_setIfInBounds_ne (by omega)

end Entities

open QuakeVm.Action Activation Entities

/-- Storing words ends well exactly if there is room for all of them; those for which there is room
are stored in any case. -/
theorem storeWords_cases (source p n : Nat) (a : Activation) :
    ∃ e, Stored (fun i => a.machine.registers.get (source + i)) p n a.machine.entities e ∧
      (storeWords source p n a = .ok () (a.mapMachine fun m => { m with entities := e }) ∧
          (n = 0 ∨ p + n ≤ a.machine.entities.words.size) ∨
        (∃ f, storeWords source p n a = .error f (a.mapMachine fun m => { m with entities := e })) ∧
          a.machine.entities.words.size < p + n) := by
  induction n generalizing source p a with
  | zero =>
    exact ⟨a.machine.entities, ⟨rfl, rfl, rfl, fun hi => absurd hi (Nat.not_lt_zero _),
      fun _ => rfl⟩, Or.inl ⟨rfl, Or.inl rfl⟩⟩
  | succ n ih =>
    rw [storeWords_succ]
    cases hwrite : a.machine.entities.write p (a.machine.registers.get source) with
    | error c =>
      have hle : a.machine.entities.words.size ≤ p := by
        by_contra hlt
        simp [Entities.write, Nat.not_le.mp hlt] at hwrite
      exact ⟨a.machine.entities, .of_size_le hle, Or.inr ⟨⟨_, rfl⟩, by omega⟩⟩
    | ok e =>
      obtain ⟨e', hstored, hends⟩ :=
        ih (source + 1) (p + 1) (a.mapMachine fun m => { m with entities := e })
      obtain ⟨hlt, he⟩ := write_eq_ok hwrite
      have hsize : e.words.size = a.machine.entities.words.size := by
        rw [he]
        exact Array.size_setIfInBounds
      refine ⟨e', .cons hwrite ?_, ?_⟩
      · simpa only [mapMachine, Nat.add_assoc, Nat.add_comm 1] using hstored
      · refine hends.imp (And.imp_right fun hroom => ?_) (And.imp_right fun hroom => ?_)
        · simp only [mapMachine, hsize] at hroom
          omega
        · simp only [mapMachine, hsize] at hroom
          omega

/-- Storing a vector stores the words for which there is room, and fails if that is not all of them.
-/
theorem storeVector_cases (exitDepth : Nat) (next : Int) (source pointer : Nat) (a : Activation) :
    ∃ e, Stored (fun i => a.machine.registers.get (source + i))
        (pointerOf (a.machine.registers.get pointer)) 3 a.machine.entities e ∧
      (perform exitDepth next (.storeVector source pointer)).final a =
        a.mapMachine (fun m => { m with entities := e }) ∧
      (perform exitDepth next (.storeVector source pointer) a =
          .ok (some next) (a.mapMachine fun m => { m with entities := e }) ∧
          pointerOf (a.machine.registers.get pointer) + 3 ≤ a.machine.entities.words.size ∨
        (∃ f, perform exitDepth next (.storeVector source pointer) a =
          .error f (a.mapMachine fun m => { m with entities := e })) ∧
          a.machine.entities.words.size < pointerOf (a.machine.registers.get pointer) + 3) := by
  have hperform : perform exitDepth next (.storeVector source pointer) a =
      (storeWords source (pointerOf (a.machine.registers.get pointer)) 3 >>= fun _ =>
        pure (some next)) a := by
    unfold perform
    dsimp only
    rw [bind_apply, word_apply]
  obtain ⟨e, hstored, hends⟩ :=
    storeWords_cases source (pointerOf (a.machine.registers.get pointer)) 3 a
  rw [final, hperform, bind_apply]
  refine ⟨e, hstored, ?_⟩
  rcases hends with ⟨hok, hroom⟩ | ⟨⟨f, herror⟩, hroom⟩
  · rw [hok]
    exact ⟨rfl, Or.inl ⟨rfl, by omega⟩⟩
  · rw [herror]
    exact ⟨rfl, Or.inr ⟨⟨f, rfl⟩, hroom⟩⟩

/-! ## Loading words -/

theorem get_loadWords_of_lt {p target n r : Nat} (h : r < target) (a : Activation) :
    ((loadWords p target n).final a).machine.registers.get r = a.machine.registers.get r := by
  induction n generalizing p target a with
  | zero => rfl
  | succ n ih =>
    rw [final, loadWords_succ]
    cases a.machine.entities.read p with
    | error c => rfl
    | ok w =>
      exact (ih (Nat.lt_succ_of_lt h) _).trans (Registers.get_set_ne _ w (Nat.ne_of_gt h))

/-- Where there is a word, it is loaded. -/
theorem get_loadWords {p target n i : Nat} {w : Int32} {a : Activation} (hi : i < n)
    (hregister : target + i < a.machine.registers.size)
    (hword : a.machine.entities.words[p + i]? = some w) :
    ((loadWords p target n).final a).machine.registers.get (target + i) = w := by
  induction n generalizing p target i a with
  | zero => omega
  | succ n ih =>
    have hlt : p + i < a.machine.entities.words.size := (Array.getElem?_eq_some_iff.mp hword).1
    obtain ⟨v, hv⟩ : ∃ v, a.machine.entities.words[p]? = some v :=
      ⟨_, Array.getElem?_eq_getElem (by omega)⟩
    rw [final, loadWords_succ, read_eq_ok_iff.mpr hv]
    cases i with
    | zero =>
      obtain rfl : v = w := Option.some.inj (hv.symm.trans hword)
      exact (get_loadWords_of_lt (Nat.lt_succ_self _) _).trans
        (Registers.get_set_self _ v hregister)
    | succ i =>
      rw [Nat.add_comm i 1, ← Nat.add_assoc] at hregister hword ⊢
      refine ih (by omega) ?_ hword
      rwa [mapMachine, Registers.size_set]

/-- What is loaded depends on the words that are loaded only. -/
theorem agree_loadWords {p n : Nat} {a b : Activation} (target : Nat)
    (hregisters : a.machine.registers = b.machine.registers)
    (hread : ∀ i < n, a.machine.entities.read (p + i) = b.machine.entities.read (p + i)) :
    Agree (fun c d => c.machine.registers = d.machine.registers) (loadWords p target n a)
      (loadWords p target n b) := by
  induction n generalizing p target a b with
  | zero => exact .ok () hregisters
  | succ n ih =>
    have hfirst : a.machine.entities.read p = b.machine.entities.read p :=
      hread 0 (Nat.succ_pos n)
    rw [loadWords_succ, loadWords_succ, ← hfirst]
    cases a.machine.entities.read p with
    | error c => exact .error _ hregisters
    | ok w =>
      refine ih (target + 1) (by simp only [mapMachine, hregisters]) fun i hi => ?_
      have hnext := hread (i + 1) (Nat.succ_lt_succ hi)
      rwa [Nat.add_comm i 1, ← Nat.add_assoc] at hnext

theorem perform_loadVector {exitDepth : Nat} {next : Int} {entity field p : Nat} {a : Activation}
    (target : Nat) (hp : a.machine.entities.pointer (a.machine.registers.get entity).toInt
      (a.machine.registers.get field).toInt = .ok p) :
    perform exitDepth next (.loadVector entity field target) a =
      (loadWords p target 3 >>= fun _ => pure (some next)) a := by
  unfold perform
  dsimp only
  rw [bind_apply, fieldPointer_apply, hp]
  rfl

/-! ## Vectors that stay inside their entity -/

/-- Storing a vector through a word stays inside an entity: no field of another one changes, and
either the three fields are the three registers or it fails and nothing changes. -/
def StoresInside (e : Entities) (w : Int32) (number field : Int) : Prop :=
  ∀ (exitDepth : Nat) (next : Int) (source pointer : Nat) (a : Activation),
    a.machine.entities = e → a.machine.registers.get pointer = w →
    (∀ number' field', number' ≠ number →
      ((perform exitDepth next (.storeVector source pointer)).final a).machine.entities.get
        number' field' = e.get number' field') ∧
    ((∃ b, perform exitDepth next (.storeVector source pointer) a = .ok (some next) b ∧
        ∀ i < 3, b.machine.entities.get number (field + (i : Nat)) =
          .ok (a.machine.registers.get (source + i))) ∨
      ∃ f b, perform exitDepth next (.storeVector source pointer) a = .error f b ∧
        b.machine.entities = e)

/-- Entities that differ in nothing but the fields of entities other than one. -/
structure SameIn (number : Int) (e e' : Entities) : Prop where
  fields_eq : e'.fields = e.fields
  free_eq : e'.free = e.free
  size_eq : e'.words.size = e.words.size
  get_eq (field : Int) : e'.get number field = e.get number field

/-- Loading a vector reads nothing outside of an entity: it has the same outcome whatever the fields
of other entities are. -/
def LoadsInside (e : Entities) (number field : Int) : Prop :=
  ∀ (exitDepth : Nat) (next : Int) (entity index target : Nat) (a : Activation) (e' : Entities),
    a.machine.entities = e → (a.machine.registers.get entity).toInt = number →
    (a.machine.registers.get index).toInt = field → SameIn number e e' →
    Agree (fun c d => c.machine.registers = d.machine.registers)
      (perform exitDepth next (.loadVector entity index target) a)
      (perform exitDepth next (.loadVector entity index target)
        (a.mapMachine fun m => { m with entities := e' }))

variable {e e' : Entities} {number field : Int} {p : Nat}

/-- The block of an entity ends where the words end, or the next block is behind it. -/
theorem block_cases (he : e.Sound) (hp : e.pointer number field = .ok p) :
    p + (e.fields - field.toNat) ≤ e.words.size ∧
    (p + (e.fields - field.toNat) = e.words.size ∧ number + 1 = e.size ∨
      e.pointer (number + 1) 0 = .ok (p + (e.fields - field.toNat)) ∧ number + 1 < e.size) := by
  obtain ⟨hnumber, hfield, hsize, hfields, rfl⟩ := pointer_eq_ok_iff.mp hp
  have hend : number.toNat * e.fields + field.toNat + (e.fields - field.toNat) =
      (number.toNat + 1) * e.fields := by
    rw [Nat.succ_mul]
    omega
  rw [hend, he.size_words]
  refine ⟨Nat.mul_le_mul_right _ hsize, ?_⟩
  by_cases hlast : number.toNat + 1 = e.size
  · exact Or.inl ⟨by rw [hlast]; rfl, by omega⟩
  · refine Or.inr ⟨pointer_eq_ok_iff.mpr ⟨by omega, by omega, by omega, by omega, ?_⟩, by omega⟩
    rw [Int.toNat_add hnumber (by decide)]
    rfl

/-- The pointer of a field further on in the same entity. -/
theorem pointer_add (hp : e.pointer number field = .ok p) {i : Nat}
    (hi : field + i < e.fields) : e.pointer number (field + i) = .ok (p + i) := by
  obtain ⟨hnumber, hfield, hsize, hfields, rfl⟩ := pointer_eq_ok_iff.mp hp
  exact pointer_eq_ok_iff.mpr ⟨hnumber, by omega, hsize, by omega, by omega⟩

theorem Entities.Stored.pointer_eq {values : Nat → Int32} {n : Nat} (h : Stored values p n e e')
    (number field : Int) : e'.pointer number field = e.pointer number field :=
  pointer_congr field h.fields_eq (by rw [Entities.size, h.free_eq]; rfl)

theorem storesInside_of_le {w : Int32} (he : e.Sound)
    (hp : e.pointer number field = .ok (pointerOf w)) (hle : field + 3 ≤ e.fields) :
    StoresInside e w number field := by
  intro exitDepth next source pointer a ha hw
  obtain ⟨e', hstored, hfinal, hends⟩ := storeVector_cases exitDepth next source pointer a
  rw [ha, hw] at hstored hends
  obtain ⟨hnumber, hfield, -, hlt, hpw⟩ := pointer_eq_ok hp
  have hroom : pointerOf w + 3 ≤ e.words.size := by
    have hend := (block_cases he hp).1
    omega
  constructor
  · intro number' field' hne
    rw [hfinal]
    refine get_congr (hstored.pointer_eq number' field') fun q hq =>
      read_congr hstored.fields_eq (hstored.outside ?_)
    obtain ⟨hnumber', -, -, hlt', rfl⟩ := pointer_eq_ok hq
    have hapart := not_in_block (n := number.toNat) (k := number'.toNat) hlt' (by omega)
    omega
  · rcases hends with ⟨hok, -⟩ | ⟨-, hshort⟩
    · refine Or.inl ⟨_, hok, fun i hi => ?_⟩
      have hpi := pointer_add hp (i := i) (by omega)
      exact (get_of_pointer ((hstored.pointer_eq _ _).trans hpi)).trans
        (read_eq_ok_iff.mpr (hstored.inside hi (by omega)))
    · omega

/-- A word other than a given one. -/
def otherWord (w : Int32) : Int32 := if w = 0 then 1 else 0

theorem otherWord_ne (w : Int32) : otherWord w ≠ w := by
  unfold otherWord
  split
  next h => rw [h]; decide
  next h => exact Ne.symm h

theorem Registers.get_ofGlobals {globals : Array Int32} {i : Nat} (h : i < globals.size) :
    (Registers.ofGlobals globals).get i = globals.getD i 0 := by
  rw [Registers.get, Registers.ofGlobals, Array.getD_eq_getD_getElem?, Array.getD_eq_getD_getElem?,
    Array.getElem?_append_left h]

/-- Any entities and any globals are those of some activation. -/
theorem exists_activation (e : Entities) (globals : Array Int32) :
    ∃ a : Activation, a.machine.entities = e ∧ reservedRegisters ≤ a.machine.registers.size ∧
      ∀ i < globals.size, a.machine.registers.get i = globals.getD i 0 := by
  refine ⟨⟨{ StringTable.machineOf (.ofConstants []) with
    entities := e, registers := .ofGlobals globals }, .new "" .empty⟩, rfl, ?_,
    fun i hi => Registers.get_ofGlobals hi⟩
  simp only [Registers.ofGlobals, Registers.size, Array.size_append, Array.size_replicate]
  omega

theorem not_storesInside {w : Int32} (he : e.Sound)
    (hp : e.pointer number field = .ok (pointerOf w)) (hlt : e.fields < field + 3) :
    ¬ StoresInside e w number field := by
  intro h
  -- A vector none of whose components is there already.
  let value (i : Nat) : Int32 := otherWord (e.words.getD (pointerOf w + i) 0)
  obtain ⟨a, ha, -, hglobals⟩ := exists_activation e #[w, value 0, value 1, value 2]
  have hw : a.machine.registers.get 0 = w := hglobals 0 (by simp)
  have hvalues (i : Nat) (hi : i < 3) : a.machine.registers.get (1 + i) = value i := by
    match i, hi with
    | 0, _ => exact hglobals 1 (by simp)
    | 1, _ => exact hglobals 2 (by simp)
    | 2, _ => exact hglobals 3 (by simp)
  obtain ⟨hframe, hinside⟩ := h 0 0 1 0 a ha hw
  obtain ⟨e', hstored, hfinal, hends⟩ := storeVector_cases 0 0 1 0 a
  rw [ha, hw] at hstored hends
  have hchanged (i : Nat) (hi : i < 3) (hroom : pointerOf w + i < e.words.size) :
      e'.words[pointerOf w + i]? ≠ e.words[pointerOf w + i]? := by
    simp only [hstored.inside hi hroom, hvalues i hi, value, Array.getD_eq_getD_getElem?,
      Array.getElem?_eq_getElem hroom]
    exact fun heq => otherWord_ne _ (Option.some.inj heq)
  obtain ⟨hnumber, hfield, -, hfields, -⟩ := pointer_eq_ok hp
  obtain ⟨-, ⟨hend, -⟩ | ⟨hnext, -⟩⟩ := block_cases he hp
  · -- Behind the last entity there is no room: the first word is stored and a later one is not.
    rcases hends with ⟨-, hroom⟩ | ⟨⟨f, herror⟩, -⟩
    · omega
    rcases hinside with ⟨b, hok, -⟩ | ⟨f', b, herror', hsame⟩
    · rw [herror] at hok
      cases hok
    · rw [herror] at herror'
      cases herror'
      exact hchanged 0 (by decide) (he.lt_size_words hp)
        (congrArg (·.words[pointerOf w + 0]?) hsame)
  · -- The first word of the next entity is among the three.
    have hget := hframe (number + 1) 0 (by omega)
    rw [hfinal, get_of_pointer hnext] at hget
    replace hget := (get_of_pointer ((hstored.pointer_eq _ _).trans hnext)).symm.trans hget
    have hroom := he.lt_size_words hnext
    obtain ⟨v, hv⟩ : ∃ v, e.words[pointerOf w + (e.fields - field.toNat)]? = some v :=
      ⟨_, Array.getElem?_eq_getElem hroom⟩
    rw [read_eq_ok_iff.mpr hv, read_eq_ok_iff, ← hv] at hget
    exact hchanged _ (by omega) hroom hget

theorem SameIn.pointer_eq {number' : Int} (h : SameIn number' e e') (number field : Int) :
    e'.pointer number field = e.pointer number field :=
  pointer_congr field h.fields_eq (by rw [Entities.size, h.free_eq]; rfl)

/-- The words of a vector are the same in both, if none of them is in another entity. -/
theorem SameIn.read_eq (hsame : SameIn number e e') (he : e.Sound)
    (hp : e.pointer number field = .ok p) (hroom : field + 3 ≤ e.fields ∨ number + 1 = e.size)
    {i : Nat} (hi : i < 3) : e.read (p + i) = e'.read (p + i) := by
  by_cases hinside : field + i < e.fields
  · have hpi := pointer_add hp hinside
    rw [← get_of_pointer hpi, ← hsame.get_eq, get_of_pointer ((hsame.pointer_eq _ _).trans hpi)]
  · -- The vector reaches behind the last entity, where there is nothing to read.
    obtain ⟨-, hfield, -, -, -⟩ := pointer_eq_ok hp
    obtain ⟨-, ⟨hend, -⟩ | ⟨-, hmore⟩⟩ := block_cases he hp
    · have hsize := hsame.size_eq
      refine (read_congr hsame.fields_eq ?_).symm
      rw [Array.getElem?_eq_none (by omega), Array.getElem?_eq_none (by omega)]
    · omega

theorem loadsInside_of_le (he : e.Sound) (hp : e.pointer number field = .ok p)
    (hroom : field + 3 ≤ e.fields ∨ number + 1 = e.size) : LoadsInside e number field := by
  rintro exitDepth next entity index target a e' rfl rfl rfl hsame
  rw [perform_loadVector target hp, perform_loadVector target ((hsame.pointer_eq _ _).trans hp)]
  refine Agree.bind (agree_loadWords target rfl fun i hi => hsame.read_eq he hp hroom hi) ?_
  intro _ c d hregisters
  exact .ok (some next) hregisters

theorem Agree.final {R : Activation → Activation → Prop} {α : Type} {x y : Action α}
    {a b : Activation} (h : Agree R (x a) (y b)) : R (x.final a) (y.final b) := by
  unfold Action.final
  cases hx : x a <;> cases hy : y b <;> rw [hx, hy] at h <;> cases h <;> assumption

theorem not_loadsInside {n f : Int32} (he : e.Sound) (hp : e.pointer n.toInt f.toInt = .ok p)
    (hlt : e.fields < f.toInt + 3) (hmore : n.toInt + 1 < e.size) :
    ¬ LoadsInside e n.toInt f.toInt := by
  intro h
  obtain ⟨-, hfield, -, hfields, -⟩ := pointer_eq_ok hp
  obtain ⟨-, ⟨-, hlast⟩ | ⟨hnext, -⟩⟩ := block_cases he hp
  · omega
  -- The first word of the next entity is among the three: change it.
  obtain ⟨v, hv⟩ : ∃ v, e.words[p + (e.fields - f.toInt.toNat)]? = some v :=
    ⟨_, Array.getElem?_eq_getElem (he.lt_size_words hnext)⟩
  obtain ⟨e', hwrite⟩ := he.exists_write hnext (otherWord v)
  have hv' := read_eq_ok_iff.mp (read_write_self hwrite)
  have hsame : SameIn n.toInt e e' := by
    refine ⟨fields_of_write hwrite, ?_, ?_, fun field' => get_write_of_ne hnext hwrite (by omega)⟩
    · rw [(write_eq_ok hwrite).2]
    · rw [(write_eq_ok hwrite).2]
      exact Array.size_setIfInBounds
  obtain ⟨a, rfl, hregisters, hglobals⟩ := exists_activation e #[n, f]
  obtain rfl : a.machine.registers.get 0 = n := hglobals 0 (by simp)
  obtain rfl : a.machine.registers.get 1 = f := hglobals 1 (by simp)
  have hagree := h 0 0 0 1 2 a e' rfl rfl rfl hsame
  rw [perform_loadVector 2 hp, perform_loadVector 2 ((hsame.pointer_eq _ _).trans hp)] at hagree
  have heq := congrArg (·.get (2 + (a.machine.entities.fields -
    (a.machine.registers.get 1).toInt.toNat))) hagree.final
  have hroom : 2 + (a.machine.entities.fields - (a.machine.registers.get 1).toInt.toNat) <
      a.machine.registers.size := by
    unfold reservedRegisters at hregisters
    omega
  simp only [final_bind_pure] at heq
  rw [get_loadWords (by omega) hroom hv] at heq
  exact otherWord_ne v (heq.trans (get_loadWords (by omega) hroom hv')).symm

/-- **A vector keeps to its entity exactly where three fields are left.** An address statement of a
field gives a word. Storing a vector through that word changes no other entity, and stores all of it
or nothing, if and only if the entity has three fields from this one on. Loading a vector reads no
other entity if and only if that is so or there is no other entity behind. -/
theorem vectors_inside {e : Entities} (he : e.Reachable) (hwords : e.words.size ≤ 0x100000000)
    (number field : Int32) (hhas : e.Has number.toInt field.toInt) :
    ∃ w, (∀ exitDepth next entity index target (a : Activation), a.machine.entities = e →
        a.machine.registers.get entity = number → a.machine.registers.get index = field →
        (a.machine.worldLocked = false ∨ number ≠ 0) →
        perform exitDepth next (.address entity index target) a =
          .ok (some next) (a.mapMachine fun m =>
            { m with registers := m.registers.set target w })) ∧
      (StoresInside e w number.toInt field.toInt ↔ field.toInt + 3 ≤ e.fields) ∧
      (LoadsInside e number.toInt field.toInt ↔
        field.toInt + 3 ≤ e.fields ∨ number.toInt + 1 = e.size) := by
  obtain ⟨p, hp⟩ := has_iff.mp hhas
  have hword : pointerOf (Int32.ofNat p) = p :=
    pointerOf_ofNat (Nat.lt_of_lt_of_le (he.sound.lt_size_words hp) hwords)
  refine ⟨Int32.ofNat p, ?_, ⟨fun h => ?_, storesInside_of_le he.sound (hword.symm ▸ hp)⟩,
    fun h => ?_, loadsInside_of_le he.sound hp⟩
  · rintro exitDepth next entity index target a rfl rfl rfl hworld
    exact perform_address_of_pointer exitDepth next target hworld hp
  · by_contra hlt
    exact not_storesInside he.sound (hword.symm ▸ hp) (Int.not_le.mp hlt) h
  · by_contra hnot
    obtain ⟨hlt, hlast⟩ := not_or.mp hnot
    exact not_loadsInside he.sound hp (Int.not_le.mp hlt)
      (by obtain ⟨-, hsize, -⟩ := hhas; omega) h

/-- Three entities with four fields each, and a vector that is stored through the word in the first
register. -/
def spilling (w : Int32) : Activation where
  machine := { StringTable.machineOf (.ofConstants []) with
    entities := { fields := 4, words := .replicate 12 0, free := .replicate 3 false, max := 4 }
    registers := .ofGlobals #[w, 7, 8, 9] }
  world := .new "game" .empty

/-- **Vectors spill into the next entity and stop halfway.** Word seven is the address of the last
field of the entity before the last, and word eleven that of the last one. -/
theorem vector_spilled :
    (spilling 7).machine.entities.pointer 1 3 = .ok (pointerOf 7) ∧
    (spilling 7).machine.entities.get 2 0 = .ok 0 ∧
    ((perform 0 1 (.storeVector 1 0)).final (spilling 7)).machine.entities.get 2 0 = .ok 8 ∧
    (spilling 11).machine.entities.pointer 2 3 = .ok (pointerOf 11) ∧
    (spilling 11).machine.entities.get 2 3 = .ok 0 ∧
    ∃ b, perform 0 1 (.storeVector 1 0) (spilling 11) = .error (.ofCause (.badEntity 3)) b ∧
      b.machine.entities.get 2 3 = .ok 7 := by
  refine ⟨?_, ?_, ?_, ?_, ?_, _, rfl, ?_⟩ <;> decide +kernel

/-- Of four fields, the second is one at which a vector stays inside and the last is none. Behind
the last entity nothing is loaded. -/
theorem vectors_inside_spilling :
    (∃ w, StoresInside (spilling 0).machine.entities w 1 1) ∧
    (∃ w, ¬ StoresInside (spilling 0).machine.entities w 1 3) ∧
    ¬ LoadsInside (spilling 0).machine.entities 1 3 ∧
    LoadsInside (spilling 0).machine.entities 2 3 := by
  have he : (spilling 0).machine.entities.Reachable :=
    .allocate (.allocate (.new 4 4) (n := 1) rfl) (n := 2) (by decide +kernel)
  have hwords : (spilling 0).machine.entities.words.size ≤ 0x100000000 := by decide +kernel
  obtain ⟨w, -, hinside, -⟩ := vectors_inside he hwords 1 1 (by decide +kernel)
  obtain ⟨w', -, hspills, hreads⟩ := vectors_inside he hwords 1 3 (by decide +kernel)
  obtain ⟨-, -, -, hlast⟩ := vectors_inside he hwords 2 3 (by decide +kernel)
  exact ⟨⟨w, hinside.mpr (by decide +kernel)⟩,
    ⟨w', fun h => absurd (hspills.mp h) (by decide +kernel)⟩,
    fun h => absurd (hreads.mp h) (by decide +kernel), hlast.mpr (by decide +kernel)⟩

end QuakeVm
